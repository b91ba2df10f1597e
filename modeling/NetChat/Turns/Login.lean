/-
The turns of a `RegisterRequest`, a `LoginPreRequest` and a `LoginRequest`.
-/
import NetChat.Turns.Requests

namespace NetChat

open Interleave Prog Server

variable {SHA256 : Bytes → Bytes} {l : List Entry} {o : Op}

/-! ## RegisterRequest -/

/-- A `RegisterRequest` is answered by whether its INSERT, if it came to one,
changed a row. -/
theorem onRegisterRequest_runs {pkt : Packet} {reply : Reply} (h : (onRegisterRequest SHA256 pkt).Runs l reply) :
    (legalRegister (pkt.request RegisterRequest).username (pkt.request RegisterRequest).rawpassword ≠ true ∧
        l = [] ∧ reply = (packToPacket .RegisterResponse (.RegisterResponse false), none)) ∨
      ∃ ret, legalRegister (pkt.request RegisterRequest).username (pkt.request RegisterRequest).rawpassword = true ∧
        l = [⟨.insertUser (cstr (pkt.request RegisterRequest).username)
          (cstr (SHA256 (pkt.request RegisterRequest).rawpassword)), ret⟩] ∧
        reply = (packToPacket .RegisterResponse (.RegisterResponse (g_db.caught ret != 0)), none) := by
  simp only [onRegisterRequest, g_db.createUser, User.new, bind_eq, pure_eq] at h
  split at h
  · rename_i hlegal
    simp only [op_bind, ret_bind, runs_op] at h
    obtain ⟨ret, l, rfl, h⟩ := h
    obtain ⟨rfl, rfl⟩ := runs_ret.mp h
    exact .inr ⟨ret, hlegal, rfl, rfl⟩
  · rename_i hlegal
    obtain ⟨rfl, rfl⟩ := runs_ret.mp h
    exact .inl ⟨hlegal, rfl, rfl⟩

/-! ## LoginPreRequest and LoginRequest -/

section
variable {pkt : Packet}

theorem onLoginPreRequest_setChallengeMp {uid : Int32} {challenge : Bytes}
    (h : (onLoginPreRequest pkt).Issues l (.setChallengeMp uid challenge)) :
    ∃ user seed, l = [⟨.getUser (pkt.request LoginPreRequest).username, .ok (some user)⟩, ⟨.time, seed⟩,
        ⟨.genChallenge seed, challenge⟩] ∧ uid = user.id := by
  simp only [onLoginPreRequest, genChallenge, bind_eq, op_bind, issues_op, issues_orTerminate, reduceCtorEq,
    and_false, false_or] at h
  obtain ⟨r, l, rfl, u, rfl, h⟩ := h
  cases u with
  | none => simp at h
  | some user =>
    simp only [ret_bind, issues_op, reduceCtorEq, and_false, false_or] at h
    obtain ⟨seed, l, rfl, ch, l, rfl, h⟩ := h
    simp at h
    obtain ⟨rfl, rfl, rfl⟩ := h
    exact ⟨user, seed, rfl, rfl⟩

/-- The ways a `LoginPreRequest` is answered, each with a challenge. -/
inductive LoginPreRun (q : LoginPreRequest) : List Entry → Bytes → Prop
  | unknown : LoginPreRun q [⟨.getUser q.username, .ok none⟩] []
  | given {user : User} {seed : Int} {challenge : Bytes} :
      LoginPreRun q [⟨.getUser q.username, .ok (some user)⟩, ⟨.time, seed⟩, ⟨.genChallenge seed, challenge⟩,
        ⟨.setChallengeMp user.id challenge, ()⟩] challenge

theorem onLoginPreRequest_runs {reply : Reply} (h : (onLoginPreRequest pkt).Runs l reply) :
    ∃ challenge, LoginPreRun (pkt.request LoginPreRequest) l challenge ∧
      reply = (packToPacket .LoginPreResponse (.LoginPreResponse challenge), none) := by
  simp only [onLoginPreRequest, genChallenge, bind_eq, pure_eq, op_bind, runs_op, runs_orTerminate] at h
  obtain ⟨r, l, rfl, u, rfl, h⟩ := h
  cases u with
  | none =>
    obtain ⟨rfl, rfl⟩ := runs_ret.mp h
    exact ⟨[], .unknown, rfl⟩
  | some user =>
    simp only [ret_bind, runs_op] at h
    obtain ⟨seed, l, rfl, challenge, l, rfl, _, l, rfl, h⟩ := h
    obtain ⟨rfl, rfl⟩ := runs_ret.mp h
    exact ⟨challenge, .given, rfl⟩

/-- What the handler of a `LoginRequest` does next, and what it has done before. -/
inductive LoginStep (SHA256 : Bytes → Bytes) (q : LoginRequest) : List Entry → Op → Prop
  | user : LoginStep SHA256 q [] (.getUser q.username)
  | challenge {user : User} :
      LoginStep SHA256 q [⟨.getUser q.username, .ok (some user)⟩] (.getChallengeMp user.id)
  | uuid {user : User} {challenge : Bytes} : SHA256 (user.password ++ challenge) = q.hashpassword →
      LoginStep SHA256 q [⟨.getUser q.username, .ok (some user)⟩, ⟨.getChallengeMp user.id, challenge⟩] .getUUID
  | token {user : User} {challenge token : Bytes} : SHA256 (user.password ++ challenge) = q.hashpassword →
      LoginStep SHA256 q [⟨.getUser q.username, .ok (some user)⟩, ⟨.getChallengeMp user.id, challenge⟩,
        ⟨.getUUID, token⟩] (.setUserIdByToken token user.id)
  | accepted {user : User} {challenge token : Bytes} : SHA256 (user.password ++ challenge) = q.hashpassword →
      LoginStep SHA256 q [⟨.getUser q.username, .ok (some user)⟩, ⟨.getChallengeMp user.id, challenge⟩,
        ⟨.getUUID, token⟩, ⟨.setUserIdByToken token user.id, ()⟩] (.delChallengeMp user.id)
  | refused {user : User} {challenge : Bytes} : SHA256 (user.password ++ challenge) ≠ q.hashpassword →
      LoginStep SHA256 q [⟨.getUser q.username, .ok (some user)⟩, ⟨.getChallengeMp user.id, challenge⟩]
        (.delChallengeMp user.id)

theorem onLoginRequest_issues (h : (onLoginRequest SHA256 pkt).Issues l o) :
    LoginStep SHA256 (pkt.request LoginRequest) l o := by
  simp only [onLoginRequest, genToken, bind_eq, pure_eq, op_bind, issues_op, issues_orTerminate] at h
  rcases h with ⟨rfl, rfl⟩ | ⟨_, l, rfl, u, rfl, h⟩
  · exact .user
  cases u with
  | none => simp at h
  | some user =>
    simp only [issues_op, ret_bind] at h
    rcases h with ⟨rfl, rfl⟩ | ⟨challenge, l, rfl, h⟩
    · exact .challenge
    split at h
    · rename_i hash
      simp only [issues_op] at h
      rcases h with ⟨rfl, rfl⟩ | ⟨token, l, rfl, ⟨rfl, rfl⟩ | ⟨_, l, rfl, ⟨rfl, rfl⟩ | ⟨_, l, rfl, h⟩⟩⟩
      · exact .uuid hash
      · exact .token hash
      · exact .accepted hash
      · simp at h
    · rename_i hash
      simp only [issues_op] at h
      rcases h with ⟨rfl, rfl⟩ | ⟨_, l, rfl, h⟩
      · exact .refused hash
      · simp at h

theorem onLoginRequest_getChallengeMp {uid : Int32} (h : (onLoginRequest SHA256 pkt).Issues l (.getChallengeMp uid)) :
    ∃ user, l = [⟨.getUser (pkt.request LoginRequest).username, .ok (some user)⟩] ∧ uid = user.id := by
  cases onLoginRequest_issues h with
  | challenge => exact ⟨_, rfl, rfl⟩

/-- What a login deletes it read before, and it stored or deleted nothing since. -/
theorem onLoginRequest_delChallengeMp {uid : Int32} (h : (onLoginRequest SHA256 pkt).Issues l (.delChallengeMp uid)) :
    ∃ user challenge rest, l = ⟨.getUser (pkt.request LoginRequest).username, .ok (some user)⟩ ::
        ⟨.getChallengeMp user.id, challenge⟩ :: rest ∧ uid = user.id ∧
      ∀ x ∈ rest, ∀ id, x.op ≠ .delChallengeMp id ∧ ∀ ch, x.op ≠ .setChallengeMp id ch := by
  cases onLoginRequest_issues h with
  | accepted hash => exact ⟨_, _, _, rfl, rfl, by simp⟩
  | refused hash => exact ⟨_, _, [], rfl, rfl, by simp⟩

/-- The token that was stored is the one the login generated, after the hash it
was sent matched the password and the challenge it read. -/
theorem onLoginRequest_setUserIdByToken {token : Bytes} {uid : Int32}
    (h : (onLoginRequest SHA256 pkt).Issues l (.setUserIdByToken token uid)) :
    ∃ user challenge, l = [⟨.getUser (pkt.request LoginRequest).username, .ok (some user)⟩,
        ⟨.getChallengeMp user.id, challenge⟩, ⟨.getUUID, token⟩] ∧ uid = user.id ∧
      SHA256 (user.password ++ challenge) = (pkt.request LoginRequest).hashpassword := by
  cases onLoginRequest_issues h with
  | token hash => exact ⟨_, _, rfl, rfl, hash⟩

/-- The ways a `LoginRequest` is answered. -/
inductive LoginRun (SHA256 : Bytes → Bytes) (q : LoginRequest) : List Entry → LoginResponse → Prop
  | unknown : LoginRun SHA256 q [⟨.getUser q.username, .ok none⟩] ⟨false, -1, bytes "illegal user"⟩
  | accepted {user : User} {challenge token : Bytes} : SHA256 (user.password ++ challenge) = q.hashpassword →
      LoginRun SHA256 q [⟨.getUser q.username, .ok (some user)⟩, ⟨.getChallengeMp user.id, challenge⟩,
        ⟨.getUUID, token⟩, ⟨.setUserIdByToken token user.id, ()⟩, ⟨.delChallengeMp user.id, ()⟩]
        ⟨true, user.id, token⟩
  | refused {user : User} {challenge : Bytes} : SHA256 (user.password ++ challenge) ≠ q.hashpassword →
      LoginRun SHA256 q [⟨.getUser q.username, .ok (some user)⟩, ⟨.getChallengeMp user.id, challenge⟩,
        ⟨.delChallengeMp user.id, ()⟩] ⟨false, -1, bytes "wrong password"⟩

theorem onLoginRequest_runs {reply : Reply} (h : (onLoginRequest SHA256 pkt).Runs l reply) :
    ∃ r, LoginRun SHA256 (pkt.request LoginRequest) l r ∧
      reply = (packToPacket .LoginResponse (.LoginResponse r), none) := by
  simp only [onLoginRequest, genToken, bind_eq, pure_eq, op_bind, runs_op, runs_orTerminate] at h
  obtain ⟨r, l, rfl, u, rfl, h⟩ := h
  cases u with
  | none =>
    obtain ⟨rfl, rfl⟩ := runs_ret.mp h
    exact ⟨_, .unknown, rfl⟩
  | some user =>
    simp only [runs_op, ret_bind] at h
    obtain ⟨challenge, l, rfl, h⟩ := h
    split at h
    · rename_i hash
      simp only [runs_op] at h
      obtain ⟨token, l, rfl, _, l, rfl, _, l, rfl, h⟩ := h
      obtain ⟨rfl, rfl⟩ := runs_ret.mp h
      exact ⟨_, .accepted hash, rfl⟩
    · rename_i hash
      simp only [runs_op] at h
      obtain ⟨_, l, rfl, h⟩ := h
      obtain ⟨rfl, rfl⟩ := runs_ret.mp h
      exact ⟨_, .refused hash, rfl⟩

end

end NetChat
