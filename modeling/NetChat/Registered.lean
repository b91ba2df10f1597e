/-
Registration. The lengths are checked on the request's strings, and what is
stored goes through `User::User`, which takes C strings: a name with a NUL is
checked whole and stored up to the NUL. The database refuses a name that is
stored already, and may fail for reasons of its own.
-/
import NetChat.Frames
import NetChat.Turns

namespace NetChat

open Interleave Prog Server

variable {ok : Config → Event → Prop} {c c' : Config} {e : Event} {l : List Entry} {o : Op}

/-! ## Digests -/

/-- A digit of `sprintf`'s `%x`. -/
def hexDigit (n : Nat) : UInt8 := UInt8.ofNat (if n < 10 then 48 + n else 87 + n)

/-- Each byte as two hex digits. -/
def bytesToHexString (bytes : Bytes) : Bytes :=
  bytes.flatMap fun b => [hexDigit (b.toNat / 16), hexDigit (b.toNat % 16)]

/-- `utils::crypto::SHA256`: the digest libsodium computes, in hex. -/
def hexSHA256 (crypto_hash_sha256 : Bytes → Bytes) (s : Bytes) : Bytes := bytesToHexString (crypto_hash_sha256 s)

theorem hexDigit_ne_zero {n : Nat} (h : n < 16) : hexDigit n ≠ 0 := by
  revert n
  decide

theorem cstr_bytesToHexString (s : Bytes) : cstr (bytesToHexString s) = bytesToHexString s := by
  refine cstr_eq_self fun b hb => ?_
  obtain ⟨x, -, hx⟩ := List.mem_flatMap.mp hb
  have hlt := x.toNat_lt
  simp only [List.mem_cons, List.not_mem_nil, or_false] at hx
  rcases hx with rfl | rfl
  · exact hexDigit_ne_zero (by omega)
  · exact hexDigit_ne_zero (by omega)

/-! ## The property -/

variable {SHA256 : Bytes → Bytes}

/-- From `s` to `s'` a request was registered, or refused: with success if and only if
its lengths are legal and no user has the name, and then under a new id, with the
name and the hash of the password as they are. -/
structure Registers (SHA256 : Bytes → Bytes) (q : RegisterRequest) (success : Bool) (s s' : State) : Prop where
  success_iff : success = true ↔ (3 ≤ q.username.length ∧ q.username.length ≤ 32) ∧
    (6 ≤ q.rawpassword.length ∧ q.rawpassword.length ≤ 32) ∧ ∀ r ∈ s.db.users, r.username ≠ q.username
  added : success = true → ∃ id, (∀ r ∈ s.db.users, r.user_id < id) ∧
    s'.db.users = s.db.users ++ [⟨id, q.username, SHA256 q.rawpassword⟩]
  kept : success = false → s'.db.users = s.db.users

/-- The turn of the reply `e`, with these events before it, did to the users what leads
from one state to another: nothing, from the state at some moment of the turn, or what
one step of it did. -/
inductive DidToUsers (SHA256 : Bytes → Bytes) (e : Event) : List Event → State → State → Prop
  | nothing {mid : List Event} {c₁ : Config} : Reachable SHA256 c₁ → Machine.SameTurn e.tid mid →
      (∀ x ∈ e.pre, x.op.part ≠ some .users) → DidToUsers SHA256 e (mid ++ c₁.history) c₁.state c₁.state
  | step {mid : List Event} {g : Event} {c₁ c₂ : Config} : Reachable SHA256 c₁ → (server SHA256).Step c₁ g c₂ →
      g.tid = e.tid → Machine.SameTurn e.tid mid → (∀ x ∈ e.pre, x.op.part = some .users → x = g.act) →
      DidToUsers SHA256 e (mid ++ g :: c₁.history) c₁.state c₂.state

/-- Registration stores what was validated: the names are of legal length and pairwise
different, and each answer is what its turn did to the users. -/
structure StoresValidated (SHA256 : Bytes → Bytes) (c : Config) : Prop where
  lengths : ∀ r ∈ c.state.db.users, 3 ≤ r.username.length ∧ r.username.length ≤ 32
  distinct : (c.state.db.users.map UserRow.username).Nodup
  answered : ∀ later e earlier, c.history = later ++ e :: earlier → ∀ q success,
    Responds .RegisterRequest q (packToPacket .RegisterResponse (.RegisterResponse success)) e →
      ∃ s s', DidToUsers SHA256 e earlier s s' ∧ Registers SHA256 q success s s'

/-- The condition of the runs: a request of legal lengths has no NUL in its name, and the
INSERT of a user fails only when the name is taken. -/
structure PlainNames (c : Config) (e : Event) : Prop where
  name : ∀ pkt, received? e.act = some pkt → pkt.packetid = PacketType.val .RegisterRequest →
    legalRegister (pkt.request RegisterRequest).username (pkt.request RegisterRequest).rawpassword = true →
      ∀ b ∈ (pkt.request RegisterRequest).username, b ≠ 0
  insert : ∀ n p err, e.act = ⟨.insertUser n p, .error err⟩ → ∃ r ∈ c.state.db.users, r.username = n

theorem legalRegister_iff {n p : Bytes} :
    legalRegister n p = true ↔ (3 ≤ n.length ∧ n.length ≤ 32) ∧ 6 ≤ p.length ∧ p.length ≤ 32 := by
  simp only [legalRegister, Bool.and_eq_true, Bool.not_eq_true', Bool.or_eq_false_iff, decide_eq_false_iff_not]
  omega

/-! ## The users table -/

theorem onRegisterRequest_issues {pkt : Packet} (h : (onRegisterRequest SHA256 pkt).Issues l o) :
    legalRegister (pkt.request RegisterRequest).username (pkt.request RegisterRequest).rawpassword = true ∧ l = [] ∧
      o = .insertUser (cstr (pkt.request RegisterRequest).username)
        (cstr (SHA256 (pkt.request RegisterRequest).rawpassword)) := by
  simp only [onRegisterRequest, g_db.createUser, User.new, bind_eq, pure_eq] at h
  split at h
  · rename_i hlegal
    simp only [op_bind, ret_bind, issues_op, issues_ret, and_false, exists_false, or_false] at h
    exact ⟨hlegal, h.1, h.2⟩
  · simp at h

/-- Names are stored once. -/
theorem usernames_nodup (h : (server SHA256).ReachableWhen ok State.initial c) :
    (c.state.db.users.map UserRow.username).Nodup := by
  refine h.state_invariant (fun s => (s.db.users.map UserRow.username).Nodup) List.nodup_nil fun s x s' hi hs => ?_
  rcases step_users hs with heq | ⟨n, p, -, hn, heq⟩
  · rwa [heq]
  · rw [heq, List.map_append, List.map_singleton, List.nodup_append]
    refine ⟨hi, by simp, fun name hname name' hname' => ?_⟩
    obtain ⟨r, hr, rfl⟩ := List.mem_map.mp hname
    rw [List.mem_singleton.mp hname']
    exact hn r hr

/-- The rows are numbered in the order they came. -/
theorem user_id_le (h : (server SHA256).ReachableWhen ok State.initial c) :
    ∀ r ∈ c.state.db.users, r.user_id ≤ c.state.db.users.length := by
  refine h.state_invariant (fun s => ∀ r ∈ s.db.users, r.user_id ≤ s.db.users.length) nofun fun s x s' hi hs => ?_
  rcases step_users hs with heq | ⟨n, p, -, -, heq⟩
  · rwa [heq]
  · rw [heq]
    intro r hr
    rw [List.length_append, List.length_singleton]
    rcases List.mem_append.mp hr with hr | hr
    · exact (hi r hr).trans (Nat.le_succ _)
    · rw [List.mem_singleton.mp hr]

/-- The name and the hash of a legal request, in a run of plain names. -/
theorem name_plain {digest : Bytes → Bytes} {fd : Int32} {conn : Conn} {n : Nat} {pkt : Packet}
    (h : (server (hexSHA256 digest)).ReachableWhen PlainNames State.initial c) (he : e ∈ c.history)
    (hpre : e.pre = received fd conn n pkt ++ l) (hp : pkt.packetid = PacketType.val .RegisterRequest)
    (hlegal : legalRegister (pkt.request RegisterRequest).username (pkt.request RegisterRequest).rawpassword = true) :
    cstr (pkt.request RegisterRequest).username = (pkt.request RegisterRequest).username := by
  have hrecv := h.pre_past he (p := [⟨.popRecvSocket, fd⟩]) (x := ⟨.Recv fd, .packet conn n pkt⟩) (q := l)
    (by rw [hpre]; rfl)
  obtain ⟨c₁, c₂, -, -, hok, -⟩ := h.event_mem hrecv
  exact cstr_eq_self (hok.name pkt rfl hp hlegal)

/-- The stored names have the lengths that were checked. -/
theorem username_lengths {digest : Bytes → Bytes}
    (h : (server (hexSHA256 digest)).ReachableWhen PlainNames State.initial c) :
    ∀ r ∈ c.state.db.users, 3 ≤ r.username.length ∧ r.username.length ≤ 32 := by
  refine h.invariant (fun c => ∀ r ∈ c.state.db.users, 3 ≤ r.username.length ∧ r.username.length ≤ 32) nofun
    fun c e c' hr hi hs hk => ?_
  rcases step_users hs.state with heq | ⟨n, p, hx, -, heq⟩
  · rwa [heq]
  · rw [heq]
    intro r hr'
    rcases List.mem_append.mp hr' with hr' | hr'
    · exact hi r hr'
    · rw [List.mem_singleton.mp hr']
      obtain ⟨i, fd, conn, k, pkt, l, -, hpre, hp, hissues⟩ :=
        step_handler handler_register hr hs (congrArg Entry.op hx) rfl
      obtain ⟨hlegal, -, ho⟩ := onRegisterRequest_issues hissues
      cases ho
      rw [name_plain (.step hr hs hk) (by rw [hs.history]; simp) hpre hp hlegal]
      exact (legalRegister_iff.mp hlegal).1

/-! ## The answers -/

/-- An INSERT is answered by whether it stored the row. -/
theorem registers_insert {digest : Bytes → Bytes} {q : RegisterRequest} {ret : Sql Nat}
    (h : (server (hexSHA256 digest)).ReachableWhen ok State.initial c)
    (hlegal : legalRegister q.username q.rawpassword = true)
    (hs : c.state.step (.insertUser q.username (hexSHA256 digest q.rawpassword)) ret = some c'.state)
    (herr : ∀ err, ret = .error err → ∃ r ∈ c.state.db.users, r.username = q.username) :
    Registers (hexSHA256 digest) q (g_db.caught ret != 0) c.state c'.state := by
  obtain ⟨hname, hpass⟩ := legalRegister_iff.mp hlegal
  simp only [State.step, State.insert_eq_some] at hs
  rcases hs with ⟨db, rfl, hdb, heq⟩ | ⟨⟨err, rfl⟩, heq⟩
  · simp only [DataAccess.insertUser, Option.ite_none_left_eq_some, Option.some.injEq, List.any_eq_true, beq_iff_eq,
      not_exists, not_and] at hdb
    obtain ⟨hnew, rfl⟩ := hdb
    have hfresh : ∀ r ∈ c.state.db.users, r.user_id < c.state.db.users.length + 1 :=
      fun r hr => Nat.lt_succ_of_le (user_id_le h r hr)
    exact ⟨iff_of_true rfl ⟨hname, hpass, hnew⟩, fun _ => ⟨_, hfresh, by rw [heq]⟩, by simp [g_db.caught]⟩
  · obtain ⟨r, hr, hr'⟩ := herr err rfl
    exact ⟨iff_of_false Bool.false_ne_true fun hall => hall.2.2 r hr hr', fun h => absurd h Bool.false_ne_true,
      fun _ => by rw [heq]⟩

/-- A request of illegal lengths is refused, whatever the state. -/
theorem registers_illegal {q : RegisterRequest} {s : State} (h : legalRegister q.username q.rawpassword ≠ true) :
    Registers SHA256 q false s s :=
  ⟨iff_of_false nofun fun hall => h (legalRegister_iff.mpr ⟨hall.1, hall.2.1⟩), nofun, fun _ => rfl⟩

/-- Receiving a request is none of the steps on the users. -/
theorem received_users {fd : Int32} {conn : Conn} {n : Nat} {pkt : Packet} {x : Entry}
    (hx : x ∈ received fd conn n pkt) : x.op.part ≠ some .users := by
  simp only [received, List.mem_cons, List.not_mem_nil, or_false] at hx
  rcases hx with rfl | rfl
  · simp [Op.part]
  · simp [Op.part]

/-- **Registration stores exactly what was validated**, in every run in which the legal
names have no NUL and an INSERT fails only when the name is taken. -/
theorem stores_validated {digest : Bytes → Bytes} (h : ReachableWhen (hexSHA256 digest) PlainNames c) :
    StoresValidated (hexSHA256 digest) c := by
  refine ⟨username_lengths h, usernames_nodup h, ?_⟩
  rintro later e earlier hh q success ⟨pkt, fd, hpkt, hp, rfl, ho⟩
  obtain ⟨c₁, c₂, h₁, rfl, hs, -, -⟩ := h.event hh
  obtain ⟨i, conn, n, hd, l, cb, ht, hpre, hhd, hrun⟩ := reply_run h₁ hs hpkt ho
  rw [handler_register hp] at hhd
  cases hhd
  rcases onRegisterRequest_runs hrun with ⟨hillegal, rfl, hreply⟩ | ⟨ret, hlegal, rfl, hreply⟩
  · simp only [Prod.mk.injEq, packToPacket_inj, true_and, Body.RegisterResponse.injEq] at hreply
    rw [hreply.1]
    have hnothing : DidToUsers (hexSHA256 digest) e ([] ++ c₁.history) c₁.state c₁.state := by
      refine .nothing h₁.reachable (by simp [Machine.SameTurn]) fun x hx => ?_
      rw [hpre, List.append_nil] at hx
      exact received_users hx
    exact ⟨c₁.state, c₁.state, hnothing, registers_illegal hillegal⟩
  · simp only [Prod.mk.injEq, packToPacket_inj, true_and, Body.RegisterResponse.injEq] at hreply
    rw [hreply.1]
    have hname := name_plain h (by simp [hh]) hpre hp hlegal
    rw [hname, hexSHA256, cstr_bytesToHexString] at hpre
    -- the step of the turn that did it
    obtain ⟨mid, past, hmid, hturn⟩ := h.pre_since hh (p := received fd conn n pkt) (q := []) hpre
    obtain ⟨c₃, c₄, h₃, rfl, hs₃, hok, -⟩ := h₁.event hmid
    rw [hmid]
    refine ⟨c₃.state, c₄.state, .step h₃.reachable hs₃ rfl hturn fun x hx hpart => ?_,
      registers_insert h₃ hlegal hs₃.state fun err hret => hok.insert _ _ err (by rw [hret])⟩
    rw [hpre, List.mem_append, List.mem_singleton] at hx
    rcases hx with hx | hx
    · exact absurd hpart (received_users hx)
    · exact hx

namespace Example

/-- The SHA-256 digest of the password, in bytes. -/
def rawDigest (s : Bytes) : Bytes :=
  if s = password then
    [0x8d, 0x96, 0x9e, 0xef, 0x6e, 0xca, 0xd3, 0xc2, 0x9a, 0x3a, 0x62, 0x92, 0x80, 0xe6, 0x86, 0xcf,
      0x0c, 0x3f, 0x5d, 0x5a, 0x86, 0xaf, 0xf3, 0xca, 0x12, 0x02, 0x0c, 0x92, 0x3a, 0xdc, 0x6c, 0x92]
  else []

/-- Someone registers under three NULs. -/
def registersNuls : Schedule :=
  connects 5 ++ handles 0 5 0 (packToPacket .RegisterRequest (.RegisterRequest ⟨[0, 0, 0], password⟩))
    [⟨.insertUser [] digest, .ok 1⟩, replies 5 0 .RegisterResponse (.RegisterResponse true)]

/-- Bob registers. -/
def registersBob : Schedule := connects 5 ++ registers 5 0 bob.username password digest

/-- What `PlainNames` asks of an operation, as it is checked. -/
def checkPlain (_ : Config) (e : Event) : Bool :=
  match e.act with
  | ⟨.insertUser _ _, .error _⟩ => false
  | ⟨.Recv _, .packet _ _ pkt⟩ => (pkt.request RegisterRequest).username.all (· != 0)
  | _ => true

theorem plainNames_of_check (h : checkPlain c e = true) : PlainNames c e := by
  constructor
  · intro pkt hpkt _ _ b hb
    obtain ⟨t, pre, act⟩ := e
    simp only [received?] at hpkt
    split at hpkt
    · cases hpkt
      simp only [checkPlain, List.all_eq_true, bne_iff_ne, ne_eq] at h
      exact h b hb
    · cases hpkt
  · intro n p err hx
    rw [checkPlain, hx] at h
    cases h

end Example

/-- Three NULs have a legal length, and no name is stored of them. -/
theorem not_storesValidated : ¬ ∀ digest c, Reachable (hexSHA256 digest) c → StoresValidated (hexSHA256 digest) c := by
  intro h
  obtain ⟨c, hr, r, hr', hname⟩ := reachable_of_run (hexSHA256 Example.rawDigest) Example.registersNuls
    (fun c => ∃ r ∈ c.state.db.users, r.username = []) (by decide +kernel)
  have hlength := ((h _ c hr).lengths r hr').1
  rw [hname] at hlength
  simp at hlength

/-- Bob's registration. -/
theorem stores_validated_bob : ∃ (c : Config) (e : Event), e ∈ c.history ∧
    Responds .RegisterRequest (⟨Example.bob.username, Example.password⟩ : RegisterRequest)
      (packToPacket .RegisterResponse (.RegisterResponse true)) e ∧
    StoresValidated (hexSHA256 Example.rawDigest) c := by
  obtain ⟨c, hr, hlast⟩ := reachableWhen_of_run (hexSHA256 Example.rawDigest) PlainNames Example.checkPlain
    Example.registersBob (fun c => (c.history.head?.map fun e => (handling e.pre, e.act.op)) =
      some (some (packToPacket .RegisterRequest (.RegisterRequest ⟨Example.bob.username, Example.password⟩)),
        .Send 5 (packToPacket .RegisterResponse (.RegisterResponse true))))
    (fun _ _ _ _ _ _ => Example.plainNames_of_check) (by decide +kernel)
  obtain ⟨e, earlier, hh, hlast⟩ := last_event hlast
  rw [Prod.mk.injEq] at hlast
  exact ⟨c, e, by simp [hh], ⟨_, 5, hlast.1, rfl, rfl, hlast.2⟩, stores_validated hr⟩

end NetChat
