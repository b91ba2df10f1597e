/-
What an operation does to each part of the state. `step_unchanged` says once
which part an operation can touch; the lemmas after it say, for one part at a
time, how it can have changed, and are what every invariant is proved from.
-/
import NetChat.System

namespace NetChat

open Interleave

/-- The parts of the state. -/
inductive Part
  | users
  | messages
  | files
  | disk
  | challenge_pool
  | keepalive_sender_mp
  | token_pool
  | file_msg_pool
  | RecvSocketQueue
  | descriptors
  deriving DecidableEq

/-- The part an operation may change, if any. -/
def Op.part : Op → Option Part
  | .insertUser _ _ => some .users
  | .insertMessage _ => some .messages
  | .insertFile _ | .updateFile _ => some .files
  | .saveToDisk _ _ => some .disk
  | .setChallengeMp _ _ | .delChallengeMp _ => some .challenge_pool
  | .setFd _ _ | .Clear _ | .addSendTask _ _ | .WaitAndPop _ | .lock _ | .unlock _ => some .keepalive_sender_mp
  | .setUserIdByToken _ _ => some .token_pool
  | .setFileMsg _ _ _ | .delFileMsg _ => some .file_msg_pool
  | .pushRecvSocket _ | .popRecvSocket => some .RecvSocketQueue
  | .accept | .epollAdd _ | .epollDel _ | .close _ => some .descriptors
  | .epoll_wait | .Recv _ | .Send _ _ | .getUser _ | .getUserById _ | .getAllUsers | .getMessage _ _ _
  | .getAllMessages _ _ | .getFile _ | .getLastInsertRowid | .checkDiskExistence _ | .loadFromDisk _
  | .getChallengeMp _ | .getUserIdByToken _ | .getSender _ | .getFileMsg _ | .time | .genChallenge _ | .getUUID
  | .getTimestamp => none

/-- `s'` has every part of `s` but `p`. -/
structure Unchanged (p : Option Part) (s s' : State) : Prop where
  users : p ≠ some .users → s'.db.users = s.db.users
  messages : p ≠ some .messages → s'.db.messages = s.db.messages
  files : p ≠ some .files → s'.db.files = s.db.files
  db : p ≠ some .users → p ≠ some .messages → p ≠ some .files → s'.db = s.db
  disk : p ≠ some .disk → s'.disk = s.disk
  challenge_pool : p ≠ some .challenge_pool → s'.challenge_pool = s.challenge_pool
  keepalive_sender_mp : p ≠ some .keepalive_sender_mp → s'.keepalive_sender_mp = s.keepalive_sender_mp
  token_pool : p ≠ some .token_pool → s'.token_pool = s.token_pool
  file_msg_pool : p ≠ some .file_msg_pool → s'.file_msg_pool = s.file_msg_pool
  RecvSocketQueue : p ≠ some .RecvSocketQueue → s'.RecvSocketQueue = s.RecvSocketQueue
  fds : p ≠ some .descriptors → s'.fds = s.fds
  epoll : p ≠ some .descriptors → s'.epoll = s.epoll
  accepted : p ≠ some .descriptors → s'.accepted = s.accepted

theorem Unchanged.refl {p : Option Part} {s : State} : Unchanged p s s := by
  constructor <;> intros <;> rfl

/-- What `saveToDisk` leaves under the name it writes. -/
def SaveOut.content (content : Bytes) (was : Option Bytes) : SaveOut → Option Bytes
  | .openFailed => was
  | .writeFailed n | .lost n => some (content.take n)
  | .saved => some content

namespace State

variable {s s' : State} {o : Op} {r : o.Res}

/-! ## The ways an operation ends -/

@[simp] theorem query_eq_some {α : Type} [DecidableEq α] {v : α} {r : Sql α} :
    s.query v r = some s' ↔ s' = s ∧ ∀ a, r = .ok a → a = v := by
  cases r with
  | ok a => simp [query, and_comm, eq_comm]
  | error e => simp [query, eq_comm]

/-- A query that succeeds returns what the tables hold, and changes nothing. -/
theorem query_ok {α : Type} [DecidableEq α] {v a : α} (h : s.query v (.ok a) = some s') : s' = s ∧ a = v := by
  simpa using h

@[simp] theorem insert_eq_some {db' : Option DataAccess} {r : Sql Nat} :
    s.insert db' r = some s' ↔
      (∃ db, r = .ok 1 ∧ db' = some db ∧ s' = { s with db }) ∨ (∃ e, r = .error e) ∧ s' = s := by
  cases r with
  | ok n =>
    simp only [insert, Option.ite_none_right_eq_some, Option.map_eq_some_iff, Except.ok.injEq, reduceCtorEq,
      exists_false, false_and, or_false]
    constructor
    · rintro ⟨rfl, db, hdb, rfl⟩
      exact ⟨db, rfl, hdb, rfl⟩
    · rintro ⟨db, rfl, hdb, rfl⟩
      exact ⟨rfl, db, hdb, rfl⟩
  | error e =>
    have : Nonempty SqlError := ⟨e⟩
    simp [insert, eq_comm]

/-- An INSERT of a message that succeeds appends its row. -/
theorem step_insertMessage_ok {x : Entry} {m : Message} {n : Nat} (h : s.step x.op x.res = some s')
    (hx : x = ⟨.insertMessage m, .ok n⟩) : s' = { s with db := s.db.insertMessage m } := by
  subst hx
  simp only [step, insert_eq_some, reduceCtorEq, exists_false, false_and, or_false, Option.some.injEq] at h
  obtain ⟨db, -, rfl, hs'⟩ := h
  exact hs'

/-- An INSERT of a file that succeeds adds an id that was not there. -/
theorem step_insertFile_ok {x : Entry} {uuid : Bytes} {n : Nat} (h : s.step x.op x.res = some s')
    (hx : x = ⟨.insertFile uuid, .ok n⟩) :
    uuid ∉ s.db.files.map FileRow.file_id ∧ uuid ∈ s'.db.files.map FileRow.file_id := by
  subst hx
  simp only [step, insert_eq_some, reduceCtorEq, exists_false, false_and, or_false, DataAccess.insertFile,
    Option.ite_none_left_eq_some, Option.some.injEq, List.any_eq_true, beq_iff_eq] at h
  obtain ⟨db, -, ⟨hno, rfl⟩, rfl⟩ := h
  exact ⟨fun hin => hno (List.mem_map.mp hin), by simp⟩

@[simp] theorem onSender_eq_some {uid : Int32} {f : Sender → Option Sender} :
    s.onSender uid f = some s' ↔ ∃ snd snd', s.keepalive_sender_mp uid = some snd ∧ f snd = some snd' ∧
      s' = { s with keepalive_sender_mp := Function.update s.keepalive_sender_mp uid (some snd') } := by
  simp only [onSender, Option.bind_eq_some_iff, Option.map_eq_some_iff]
  constructor
  · rintro ⟨snd, h, snd', hf, rfl⟩
    exact ⟨snd, snd', h, hf, rfl⟩
  · rintro ⟨snd, snd', h, hf, rfl⟩
    exact ⟨snd, h, snd', hf, rfl⟩

theorem saveToDisk_eq {id content : Bytes} {out : SaveOut} (h : s.saveToDisk id content out = some s') :
    s' = { s with disk := Function.update s.disk id (out.content content (s.disk id)) } := by
  cases out with
  | openFailed =>
    simp only [saveToDisk, Option.some.injEq] at h
    simp [SaveOut.content, h]
  | writeFailed n | lost n =>
    simp only [saveToDisk, Option.ite_none_right_eq_some, Option.some.injEq] at h
    exact h.2.symm
  | saved =>
    simp only [saveToDisk, Option.some.injEq] at h
    exact h.symm

/-- A file saved with success is there, whole or not. -/
theorem step_saveToDisk_some {id content : Bytes} {out : SaveOut} (h : s.step (.saveToDisk id content) out = some s')
    (hret : out.ret = true) : s'.disk id ≠ none := by
  rw [saveToDisk_eq h]
  simp only [Function.update_self]
  cases out with
  | openFailed | writeFailed => cases hret
  | lost | saved => exact Option.some_ne_none _

theorem recv_eq_self {fd : Int32} {r : RecvOut} (h : s.recv fd r = some s') : s' = s := by
  cases r <;> simp only [recv, Option.ite_none_right_eq_some, Option.some.injEq] at h
  · exact h.symm
  all_goals exact h.2.symm

/-- **The frame of an operation**: it changes no part but its own. -/
theorem step_unchanged (h : s.step o r = some s') : Unchanged o.part s s' := by
  cases o <;> simp only [step, query_eq_some, insert_eq_some, onSender_eq_some, Option.ite_none_right_eq_some,
    Option.some.injEq] at h
  case accept =>
    cases r with
    | none => simp only [accept, Option.some.injEq] at h; subst h; exact .refl
    | some fd =>
      simp only [accept, Option.ite_none_right_eq_some, Option.some.injEq] at h
      obtain ⟨-, rfl⟩ := h
      constructor <;> simp [Op.part]
  case popRecvSocket =>
    split at h
    · cases h
    · simp only [Option.ite_none_right_eq_some, Option.some.injEq] at h
      obtain ⟨-, rfl⟩ := h
      constructor <;> simp [Op.part]
  case Recv => rw [recv_eq_self h]; exact .refl
  case insertUser n p =>
    rcases h with ⟨db, -, hdb, rfl⟩ | ⟨-, rfl⟩
    · simp only [DataAccess.insertUser, Option.ite_none_left_eq_some, Option.some.injEq] at hdb
      obtain ⟨-, rfl⟩ := hdb
      constructor <;> simp [Op.part]
    · exact .refl
  case insertMessage m =>
    rcases h with ⟨db, -, hdb, rfl⟩ | ⟨-, rfl⟩
    · cases hdb
      constructor <;> simp [Op.part, DataAccess.insertMessage]
    · exact .refl
  case insertFile uuid =>
    rcases h with ⟨db, -, hdb, rfl⟩ | ⟨-, rfl⟩
    · simp only [DataAccess.insertFile, Option.ite_none_left_eq_some, Option.some.injEq] at hdb
      obtain ⟨-, rfl⟩ := hdb
      constructor <;> simp [Op.part]
    · exact .refl
  case updateFile f =>
    cases r with
    | ok n =>
      simp only [Option.ite_none_right_eq_some, Option.some.injEq] at h
      obtain ⟨-, rfl⟩ := h
      constructor <;> simp [Op.part, DataAccess.updateFile]
    | error e => simp only [Option.some.injEq] at h; subst h; exact .refl
  case saveToDisk id content =>
    rw [saveToDisk_eq h]
    constructor <;> simp [Op.part]
  case loadFromDisk id =>
    cases r with
    | none => simp only [Option.some.injEq] at h; subst h; exact .refl
    | some c =>
      simp only [Option.ite_none_right_eq_some, Option.some.injEq] at h
      rw [← h.2]
      exact .refl
  case setFd uid fd =>
    cases r with
    | true =>
      simp only [setFd, onSender_eq_some] at h
      obtain ⟨_, _, -, -, rfl⟩ := h
      constructor <;> simp [Op.part]
    | false =>
      simp only [setFd, Option.ite_none_left_eq_some, Option.some.injEq] at h
      obtain ⟨-, rfl⟩ := h
      constructor <;> simp [Op.part]
  case Clear | addSendTask | WaitAndPop | lock | unlock =>
    obtain ⟨_, _, -, -, rfl⟩ := h
    constructor <;> simp [Op.part]
  case getUser | getUserById | getAllUsers | getMessage | getAllMessages | getFile =>
    rw [h.1]
    exact .refl
  case epoll_wait | Send | getLastInsertRowid | checkDiskExistence | getChallengeMp | getUserIdByToken | getSender
      | getFileMsg | genChallenge | getUUID =>
    rw [← h.2]
    exact .refl
  case time | getTimestamp => subst h; exact .refl
  case epollAdd | epollDel | close => obtain ⟨-, rfl⟩ := h; constructor <;> simp [Op.part]
  all_goals subst h; constructor <;> simp [Op.part]

end State

/-! ## One part at a time -/

section
variable {s s' : State} {x : Entry} (h : s.step x.op x.res = some s')
include h

theorem step_users : s'.db.users = s.db.users ∨ ∃ n p, x = ⟨.insertUser n p, .ok 1⟩ ∧
    (∀ r ∈ s.db.users, r.username ≠ n) ∧ s'.db.users = s.db.users ++ [⟨s.db.users.length + 1, n, p⟩] := by
  obtain ⟨o, r⟩ := x
  by_cases hp : o.part = some .users
  · cases o <;> simp only [Op.part, Option.some.injEq, reduceCtorEq] at hp
    simp only [State.step, State.insert_eq_some] at h
    rcases h with ⟨db, hr, hdb, rfl⟩ | ⟨-, rfl⟩
    · simp only [DataAccess.insertUser, Option.ite_none_left_eq_some, Option.some.injEq, List.any_eq_true,
        beq_iff_eq, not_exists, not_and] at hdb
      obtain ⟨hn, rfl⟩ := hdb
      exact .inr ⟨_, _, by rw [hr], hn, rfl⟩
    · exact .inl rfl
  · exact .inl ((State.step_unchanged h).users hp)

theorem step_messages : s'.db.messages = s.db.messages ∨
    ∃ m, x = ⟨.insertMessage m, .ok 1⟩ ∧ s'.db = s.db.insertMessage m := by
  obtain ⟨o, r⟩ := x
  by_cases hp : o.part = some .messages
  · cases o <;> simp only [Op.part, Option.some.injEq, reduceCtorEq] at hp
    simp only [State.step, State.insert_eq_some] at h
    rcases h with ⟨db, hr, hdb, rfl⟩ | ⟨-, rfl⟩
    · cases hdb
      exact .inr ⟨_, by rw [hr], rfl⟩
    · exact .inl rfl
  · exact .inl ((State.step_unchanged h).messages hp)

theorem step_files : s'.db.files.map FileRow.file_id = s.db.files.map FileRow.file_id ∨
    ∃ uuid, x = ⟨.insertFile uuid, .ok 1⟩ ∧ uuid ∉ s.db.files.map FileRow.file_id ∧
      s'.db.files = s.db.files ++ [⟨uuid, none, none⟩] := by
  obtain ⟨o, r⟩ := x
  by_cases hp : o.part = some .files
  · cases o <;> simp only [Op.part, Option.some.injEq, reduceCtorEq] at hp
    case insertFile uuid =>
      simp only [State.step, State.insert_eq_some] at h
      rcases h with ⟨db, hr, hdb, rfl⟩ | ⟨-, rfl⟩
      · simp only [DataAccess.insertFile, Option.ite_none_left_eq_some, Option.some.injEq, List.any_eq_true,
          beq_iff_eq] at hdb
        obtain ⟨hn, rfl⟩ := hdb
        exact .inr ⟨_, by rw [hr], by simpa using hn, rfl⟩
      · exact .inl rfl
    case updateFile f =>
      left
      cases r with
      | ok n =>
        simp only [State.step, Option.ite_none_right_eq_some, Option.some.injEq] at h
        obtain ⟨-, rfl⟩ := h
        simp only [DataAccess.updateFile, List.map_map]
        refine List.map_congr_left fun r _ => ?_
        simp only [Function.comp]
        split <;> rfl
      | error e => simp only [State.step, Option.some.injEq] at h; rw [h]
  · exact .inl (by rw [(State.step_unchanged h).files hp])

end

/-- The operations that change no table. -/
def Op.keepsDb (o : Op) : Prop := o.part ≠ some .users ∧ o.part ≠ some .messages ∧ o.part ≠ some .files

instance (o : Op) : Decidable o.keepsDb := inferInstanceAs (Decidable (_ ∧ _))

theorem step_db {s s' : State} {x : Entry} (h : s.step x.op x.res = some s') (hx : x.op.keepsDb) : s'.db = s.db :=
  (State.step_unchanged h).db hx.1 hx.2.1 hx.2.2

/-! ## The pools, key by key -/

/-- What an operation writes at a key of a pool, if it writes there. -/
def Op.writesToken (token : Bytes) : Op → Option (Option Int32)
  | .setUserIdByToken t uid => if t = token then some (some uid) else none
  | _ => none

def Op.writesChallenge (uid : Int32) : Op → Option (Option Bytes)
  | .setChallengeMp id challenge => if id = uid then some (some challenge) else none
  | .delChallengeMp id => if id = uid then some none else none
  | _ => none

def Op.writesFileMsg (fileid : Bytes) : Op → Option (Option (Int32 × Message))
  | .setFileMsg id uid msg => if id = fileid then some (some (uid, msg)) else none
  | .delFileMsg id => if id = fileid then some none else none
  | _ => none

section
variable {s s' : State} {x : Entry} (h : s.step x.op x.res = some s')
include h

theorem step_token_pool (token : Bytes) :
    s'.token_pool token = (x.op.writesToken token).getD (s.token_pool token) := by
  obtain ⟨o, r⟩ := x
  by_cases hp : o.part = some .token_pool
  · cases o <;> simp only [Op.part, Option.some.injEq, reduceCtorEq] at hp
    simp only [State.step, Option.some.injEq] at h
    subst h
    simp only [Op.writesToken, Function.update_apply, @eq_comm _ token]
    split <;> rfl
  · have hw : o.writesToken token = none := by cases o <;> first | rfl | exact absurd rfl hp
    rw [hw, (State.step_unchanged h).token_pool hp]
    rfl

theorem step_challenge_pool (uid : Int32) :
    s'.challenge_pool uid = (x.op.writesChallenge uid).getD (s.challenge_pool uid) := by
  obtain ⟨o, r⟩ := x
  by_cases hp : o.part = some .challenge_pool
  · cases o <;> simp only [Op.part, Option.some.injEq, reduceCtorEq] at hp
    all_goals
      simp only [State.step, Option.some.injEq] at h
      subst h
      simp only [Op.writesChallenge, Function.update_apply, @eq_comm _ uid]
      split <;> rfl
  · have hw : o.writesChallenge uid = none := by cases o <;> first | rfl | exact absurd rfl hp
    rw [hw, (State.step_unchanged h).challenge_pool hp]
    rfl

theorem step_file_msg_pool (fileid : Bytes) :
    s'.file_msg_pool fileid = (x.op.writesFileMsg fileid).getD (s.file_msg_pool fileid) := by
  obtain ⟨o, r⟩ := x
  by_cases hp : o.part = some .file_msg_pool
  · cases o <;> simp only [Op.part, Option.some.injEq, reduceCtorEq] at hp
    all_goals
      simp only [State.step, Option.some.injEq] at h
      subst h
      simp only [Op.writesFileMsg, Function.update_apply, @eq_comm _ fileid]
      split <;> rfl
  · have hw : o.writesFileMsg fileid = none := by cases o <;> first | rfl | exact absurd rfl hp
    rw [hw, (State.step_unchanged h).file_msg_pool hp]
    rfl

end

/-! ## Files on disk -/

theorem step_disk {s s' : State} {x : Entry} (h : s.step x.op x.res = some s') (f : Bytes) :
    (∃ content out, x = ⟨.saveToDisk f content, out⟩ ∧ s'.disk f = out.content content (s.disk f)) ∨
      (∀ content, x.op ≠ .saveToDisk f content) ∧ s'.disk f = s.disk f := by
  obtain ⟨o, r⟩ := x
  by_cases hp : o.part = some .disk
  · cases o <;> simp only [Op.part, Option.some.injEq, reduceCtorEq] at hp
    case saveToDisk id content =>
      by_cases hid : id = f
      · subst hid
        refine .inl ⟨content, r, rfl, ?_⟩
        rw [State.saveToDisk_eq h]
        exact Function.update_self ..
      · refine .inr ⟨fun content' ho => hid (by cases ho; rfl), ?_⟩
        rw [State.saveToDisk_eq h]
        exact Function.update_of_ne (Ne.symm hid) ..
  · refine .inr ⟨fun content ho => ?_, by rw [(State.step_unchanged h).disk hp]⟩
    obtain rfl : o = .saveToDisk f content := ho
    exact hp rfl

/-! ## The files of the table -/

namespace DataAccess

variable {db : DataAccess} {u : Bytes} {v row : FileStorage}

theorem getFile_id (h : db.getFile u = some row) : row.id = cstr u := by
  obtain ⟨r, hr, rfl⟩ := Option.map_eq_some_iff.mp h
  have hid := List.find?_some hr
  simp only [beq_iff_eq] at hid
  exact hid

theorem getFile_cstr (db : DataAccess) (u : Bytes) : db.getFile (cstr u) = db.getFile u := by
  rw [getFile, getFile, cstr_cstr]

/-- The update writes the row of its id, and no other. -/
theorem getFile_updateFile : (db.updateFile v).2.getFile u =
    if v.id = cstr u then (db.getFile u).map fun _ => v else db.getFile u := by
  have hid : ((fun r : FileRow => r.file_id == cstr u) ∘ fun r =>
      if r.file_id == v.id then { r with filename := some v.name, hash := some v.hash } else r) =
      fun r => r.file_id == cstr u := by
    funext r
    simp only [Function.comp]
    split <;> rfl
  simp only [getFile, updateFile, List.find?_map, hid, Option.map_map]
  cases hr : db.files.find? fun r => r.file_id == cstr u with
  | none => simp
  | some r =>
    have hu := List.find?_some hr
    simp only [beq_iff_eq] at hu
    simp only [Option.map_some, Function.comp, hu, beq_iff_eq, @eq_comm _ (cstr u)]
    split
    · rename_i hv
      obtain ⟨id, name, hash⟩ := v
      simp only at hv
      subst hv
      rfl
    · rfl

theorem updateFile_changed (hv : v.id = cstr u) : (db.updateFile v).1 ≠ 0 ↔ db.getFile u ≠ none := by
  simp only [updateFile, hv, getFile, ne_eq, List.length_eq_zero_iff, List.filter_eq_nil_iff, Option.map_eq_none_iff,
    List.find?_eq_none]

end DataAccess

section
variable {s s' : State} {x : Entry} (h : s.step x.op x.res = some s')
include h

theorem step_updateFile {v : FileStorage} {ret : Sql Nat} (hx : x = ⟨.updateFile v, ret⟩) (hret : g_db.caught ret ≠ 0)
    {u : Bytes} (hv : v.id = cstr u) : s'.db.getFile u = some v := by
  subst hx
  cases ret with
  | error e => exact absurd rfl hret
  | ok n =>
    simp only [State.step, Option.ite_none_right_eq_some, Option.some.injEq] at h
    obtain ⟨rfl, rfl⟩ := h
    obtain ⟨row, hrow⟩ := Option.ne_none_iff_exists'.mp ((DataAccess.updateFile_changed hv).mp hret)
    rw [DataAccess.getFile_updateFile, if_pos hv, hrow]
    rfl

/-- **What an operation does to the row of a file.** -/
theorem step_getFile (u : Bytes) : s'.db.getFile u = s.db.getFile u ∨ s.db.getFile u = none ∨
    ∃ v ret, x = ⟨.updateFile v, ret⟩ ∧ g_db.caught ret ≠ 0 ∧ v.id = cstr u := by
  obtain ⟨o, r⟩ := x
  by_cases hp : o.part = some .files
  · cases o <;> simp only [Op.part, Option.some.injEq, reduceCtorEq] at hp
    case insertFile uuid =>
      simp only [State.step, State.insert_eq_some] at h
      rcases h with ⟨db, -, hdb, rfl⟩ | ⟨-, rfl⟩
      · simp only [DataAccess.insertFile, Option.ite_none_left_eq_some, Option.some.injEq] at hdb
        obtain ⟨-, rfl⟩ := hdb
        by_cases hnone : s.db.getFile u = none
        · exact .inr (.inl hnone)
        · left
          obtain ⟨row, hrow⟩ := Option.ne_none_iff_exists'.mp hnone
          obtain ⟨fr, hfr, -⟩ := Option.map_eq_some_iff.mp hrow
          simp only [DataAccess.getFile, List.find?_append, hfr, Option.some_or]
      · exact .inl rfl
    case updateFile v =>
      cases r with
      | error e => simp only [State.step, Option.some.injEq] at h; exact .inl (by rw [h])
      | ok n =>
        simp only [State.step, Option.ite_none_right_eq_some, Option.some.injEq] at h
        obtain ⟨rfl, rfl⟩ := h
        by_cases hv : v.id = cstr u
        · by_cases hn : (s.db.updateFile v).1 = 0
          · refine .inr (.inl ?_)
            by_contra hne
            exact (DataAccess.updateFile_changed hv).mpr hne hn
          · exact .inr (.inr ⟨v, _, rfl, hn, hv⟩)
        · exact .inl (by rw [DataAccess.getFile_updateFile, if_neg hv])
  · refine .inl ?_
    rw [DataAccess.getFile, (State.step_unchanged h).files hp]
    rfl

/-- A row that is new has no name and no hash. -/
theorem step_getFile_new {u : Bytes} {row : FileStorage} (hnone : s.db.getFile u = none)
    (hrow : s'.db.getFile u = some row) : row.name = [] ∧ row.hash = [] := by
  obtain ⟨o, r⟩ := x
  by_cases hp : o.part = some .files
  · cases o <;> simp only [Op.part, Option.some.injEq, reduceCtorEq] at hp
    case insertFile uuid =>
      simp only [State.step, State.insert_eq_some] at h
      rcases h with ⟨db, -, hdb, rfl⟩ | ⟨-, rfl⟩
      · simp only [DataAccess.insertFile, Option.ite_none_left_eq_some, Option.some.injEq] at hdb
        obtain ⟨-, rfl⟩ := hdb
        simp only [DataAccess.getFile, Option.map_eq_none_iff] at hnone
        simp only [DataAccess.getFile, List.find?_append, hnone, Option.none_or] at hrow
        obtain ⟨r, hr, rfl⟩ := Option.map_eq_some_iff.mp hrow
        rw [List.mem_singleton.mp (List.mem_of_find?_eq_some hr)]
        exact ⟨rfl, rfl⟩
      · rw [hnone] at hrow
        cases hrow
    case updateFile v =>
      have hkept : s'.db.getFile u = none := by
        cases r with
        | error e => simp only [State.step, Option.some.injEq] at h; rwa [← h]
        | ok n =>
          simp only [State.step, Option.ite_none_right_eq_some, Option.some.injEq] at h
          rw [← h.2, DataAccess.getFile_updateFile, hnone]
          split <;> rfl
      rw [hkept] at hrow
      cases hrow
  · rw [DataAccess.getFile, (State.step_unchanged h).files hp, ← DataAccess.getFile, hnone] at hrow
    cases hrow

end

/-! ## Senders and descriptors -/

/-- The user whose sender an operation changes. -/
def Op.sender : Op → Option Int32
  | .setFd uid _ | .Clear uid | .addSendTask uid _ | .WaitAndPop uid | .lock uid | .unlock uid => some uid
  | _ => none

/-- **What an operation does to the sender of `uid`.** -/
inductive SenderChange (uid : Int32) : Entry → Option Sender → Option Sender → Prop
  | other {x : Entry} {snd : Option Sender} : x.op.sender ≠ some uid → SenderChange uid x snd snd
  | created {fd : Int32} : SenderChange uid ⟨.setFd uid fd, false⟩ none (some ⟨fd, [], false⟩)
  | setFd {fd : Int32} {snd : Sender} : snd.locked = false →
      SenderChange uid ⟨.setFd uid fd, true⟩ (some snd) (some { snd with fd_ := fd })
  | clear {snd : Sender} : SenderChange uid ⟨.Clear uid, ()⟩ (some snd) (some { snd with msg_queue_ := [] })
  | pushed {pkt : Packet} {snd : Sender} : SenderChange uid ⟨.addSendTask uid pkt, ()⟩ (some snd)
      (some { snd with msg_queue_ := snd.msg_queue_ ++ [pkt] })
  | popped {pkt : Packet} {rest : List Packet} {snd : Sender} : snd.msg_queue_ = pkt :: rest →
      SenderChange uid ⟨.WaitAndPop uid, pkt⟩ (some snd) (some { snd with msg_queue_ := rest })
  | lock {snd : Sender} : snd.locked = false →
      SenderChange uid ⟨.lock uid, snd.fd_⟩ (some snd) (some { snd with locked := true })
  | unlock {snd : Sender} : SenderChange uid ⟨.unlock uid, ()⟩ (some snd) (some { snd with locked := false })

theorem State.onSender_self {s s' : State} {uid : Int32} {f : Sender → Option Sender} (h : s.onSender uid f = some s') :
    ∃ snd snd', s.keepalive_sender_mp uid = some snd ∧ f snd = some snd' ∧
      s'.keepalive_sender_mp uid = some snd' := by
  obtain ⟨snd, snd', hsnd, hf, rfl⟩ := State.onSender_eq_some.mp h
  exact ⟨snd, snd', hsnd, hf, Function.update_self ..⟩

theorem State.onSender_other {s s' : State} {uid uid' : Int32} {f : Sender → Option Sender}
    (h : s.onSender uid f = some s') (hne : uid ≠ uid') :
    s'.keepalive_sender_mp uid' = s.keepalive_sender_mp uid' := by
  obtain ⟨snd, snd', hsnd, hf, rfl⟩ := State.onSender_eq_some.mp h
  exact Function.update_of_ne hne.symm ..

section
variable {s s' : State} {x : Entry} (h : s.step x.op x.res = some s')
include h

theorem step_sender_other {uid : Int32} (hne : x.op.sender ≠ some uid) :
    s'.keepalive_sender_mp uid = s.keepalive_sender_mp uid := by
  obtain ⟨o, r⟩ := x
  by_cases hp : o.part = some .keepalive_sender_mp
  · cases o <;> simp only [Op.part, Option.some.injEq, reduceCtorEq] at hp
    case setFd uid' fd =>
      have hu : uid' ≠ uid := fun hu => hne (congrArg some hu)
      cases r with
      | true => exact State.onSender_other h hu
      | false =>
        simp only [State.step, State.setFd, Option.ite_none_left_eq_some, Option.some.injEq] at h
        rw [← h.2]
        exact Function.update_of_ne hu.symm ..
    all_goals exact State.onSender_other h fun hu => hne (congrArg some hu)
  · rw [(State.step_unchanged h).keepalive_sender_mp hp]

theorem step_sender (uid : Int32) :
    SenderChange uid x (s.keepalive_sender_mp uid) (s'.keepalive_sender_mp uid) := by
  by_cases hu : x.op.sender = some uid
  · obtain ⟨o, r⟩ := x
    cases o <;> simp only [Op.sender, Option.some.injEq, reduceCtorEq] at hu
    all_goals subst hu
    case setFd uid fd =>
      cases r with
      | true =>
        obtain ⟨snd, snd', hsnd, hf, hsnd'⟩ := State.onSender_self h
        simp only [Option.ite_none_left_eq_some, Option.some.injEq, Bool.not_eq_true] at hf
        rw [hsnd, hsnd', ← hf.2]
        exact .setFd hf.1
      | false =>
        simp only [State.step, State.setFd, Option.ite_none_left_eq_some, Option.some.injEq] at h
        rw [Option.not_isSome_iff_eq_none.mp h.1, ← h.2]
        simp only [Function.update_self]
        exact .created
    case Clear =>
      obtain ⟨snd, snd', hsnd, hf, hsnd'⟩ := State.onSender_self h
      rw [hsnd, hsnd', ← hf]
      exact .clear
    case addSendTask =>
      obtain ⟨snd, snd', hsnd, hf, hsnd'⟩ := State.onSender_self h
      rw [hsnd, hsnd', ← hf]
      exact .pushed
    case WaitAndPop =>
      obtain ⟨snd, snd', hsnd, hf, hsnd'⟩ := State.onSender_self h
      split at hf
      · cases hf
      · rename_i pkt rest hq
        simp only [Option.ite_none_right_eq_some, Option.some.injEq] at hf
        obtain ⟨rfl, hf⟩ := hf
        rw [hsnd, hsnd', ← hf]
        exact .popped hq
    case lock =>
      obtain ⟨snd, snd', hsnd, hf, hsnd'⟩ := State.onSender_self h
      simp only [Option.ite_none_right_eq_some, Option.some.injEq, Bool.and_eq_true, Bool.not_eq_true',
        beq_iff_eq] at hf
      obtain ⟨⟨hlocked, rfl⟩, hf⟩ := hf
      rw [hsnd, hsnd', ← hf]
      exact .lock hlocked
    case unlock =>
      obtain ⟨snd, snd', hsnd, hf, hsnd'⟩ := State.onSender_self h
      rw [hsnd, hsnd', ← hf]
      exact .unlock
  · rw [step_sender_other h hu]
    exact .other hu

theorem step_sender_fd {uid : Int32} {snd' : Sender} (hsnd : s'.keepalive_sender_mp uid = some snd') :
    x.op = .setFd uid snd'.fd_ ∨
      (∀ fd, x.op ≠ .setFd uid fd) ∧ ∃ snd, s.keepalive_sender_mp uid = some snd ∧ snd.fd_ = snd'.fd_ := by
  have hch := step_sender h uid
  rw [hsnd] at hch
  generalize hs : s.keepalive_sender_mp uid = was at hch
  cases hch with
  | other hne => exact .inr ⟨fun fd ho => hne (by rw [ho]; rfl), snd', rfl, rfl⟩
  | created | setFd => exact .inl rfl
  | clear | pushed | popped | lock | unlock => exact .inr ⟨by simp, _, rfl, rfl⟩

/-- A descriptor goes on naming its connection until it is closed. -/
theorem step_fds {fd : Int32} {conn : Conn} (hx : x.op ≠ .close fd) (hfd : s.fds fd = some conn) :
    s'.fds fd = some conn := by
  obtain ⟨o, r⟩ := x
  by_cases hp : o.part = some .descriptors
  · cases o <;> simp only [Op.part, Option.some.injEq, reduceCtorEq] at hp
    case accept =>
      cases r with
      | none => simp only [State.step, State.accept, Option.some.injEq] at h; rwa [← h]
      | some fd' =>
        simp only [State.step, State.accept, Option.ite_none_right_eq_some, Option.some.injEq] at h
        have hne : fd ≠ fd' := by
          rintro rfl
          rw [h.1.1] at hfd
          cases hfd
        rw [← h.2]
        simpa [Function.update_of_ne hne] using hfd
    case close fd' =>
      simp only [State.step, Option.ite_none_right_eq_some, Option.some.injEq] at h
      have hne : fd ≠ fd' := by rintro rfl; exact hx rfl
      rw [← h.2]
      simpa [Function.update_of_ne hne] using hfd
    all_goals
      simp only [State.step, Option.ite_none_right_eq_some, Option.some.injEq] at h
      rwa [← h.2]
  · rwa [(State.step_unchanged h).fds hp]

end

/-! ## Rows stay -/

theorem step_users_grow {s s' : State} {x : Entry} (h : s.step x.op x.res = some s') :
    s.db.users <+: s'.db.users := by
  rcases step_users h with hu | ⟨n, p, -, -, hu⟩
  · exact ⟨[], by simp [hu]⟩
  · exact ⟨_, hu.symm⟩

theorem step_messages_grow {s s' : State} {x : Entry} (h : s.step x.op x.res = some s') :
    s.db.messages <+: s'.db.messages := by
  rcases step_messages h with hm | ⟨m, -, hdb⟩
  · exact ⟨[], by simp [hm]⟩
  · exact ⟨_, by rw [hdb]; rfl⟩

theorem step_fileIds_grow {s s' : State} {x : Entry} (h : s.step x.op x.res = some s') :
    s.db.files.map FileRow.file_id <+: s'.db.files.map FileRow.file_id := by
  rcases step_files h with hf | ⟨uuid, -, -, hf⟩
  · exact ⟨[], by simp [hf]⟩
  · exact ⟨_, by rw [hf, List.map_append]⟩

/-- A file on disk is written over, not removed. -/
theorem step_disk_stays {s s' : State} {x : Entry} (h : s.step x.op x.res = some s') {f : Bytes}
    (hf : s.disk f ≠ none) : s'.disk f ≠ none := by
  rcases step_disk h f with ⟨content, out, -, hout⟩ | ⟨-, hsame⟩
  · rw [hout]
    cases out with
    | openFailed => exact hf
    | writeFailed | lost | saved => exact Option.some_ne_none _
  · rwa [hsame]

section
variable {SHA256 : Bytes → Bytes} {ok : Config → Event → Prop} {c c' : Config} {e : Event}

theorem users_grow_step (h : (server SHA256).Step c e c') : c.state.db.users <+: c'.state.db.users :=
  step_users_grow h.state

/-- Every row was inserted. -/
theorem row_inserted (h : (server SHA256).ReachableWhen ok State.initial c) {row : MessageRow}
    (hrow : row ∈ c.state.db.messages) :
    ∃ e m, e ∈ c.history ∧ e.act = ⟨.insertMessage m, .ok 1⟩ ∧ row = DataAccess.toRow m row.message_id := by
  induction h with
  | init => cases hrow
  | @step c c' e _ hs _ ih =>
    rw [hs.history]
    have hold : row ∈ c.state.db.messages → ∃ e₁ m, e₁ ∈ e :: c.history ∧
        e₁.act = ⟨.insertMessage m, .ok 1⟩ ∧ row = DataAccess.toRow m row.message_id := by
      intro hrow
      obtain ⟨e₁, m, he, hm⟩ := ih hrow
      exact ⟨e₁, m, List.mem_cons_of_mem _ he, hm⟩
    rcases step_messages hs.state with hm | ⟨m, hx, hdb⟩
    · exact hold (hm ▸ hrow)
    · rw [hdb] at hrow
      rcases List.mem_append.mp hrow with hrow | hrow
      · exact hold hrow
      · rw [List.mem_singleton] at hrow
        subst hrow
        exact ⟨e, m, by simp, hx, rfl⟩

theorem steps_users_grow (h : (server SHA256).Steps ok c c') : c.state.db.users <+: c'.state.db.users :=
  h.state_invariant (fun s => c.state.db.users <+: s.db.users)
    (fun _ _ _ hi hs => hi.trans (step_users_grow hs)) (List.prefix_refl _)

theorem steps_messages_grow (h : (server SHA256).Steps ok c c') :
    c.state.db.messages <+: c'.state.db.messages :=
  h.state_invariant (fun s => c.state.db.messages <+: s.db.messages)
    (fun _ _ _ hi hs => hi.trans (step_messages_grow hs)) (List.prefix_refl _)

/-! ## Answers stay true -/

theorem DataAccess.getUser_grow {db db' : DataAccess} {n : Bytes} {u : User} (hgrow : db.users <+: db'.users)
    (h : db.getUser n = some u) : db'.getUser n = some u := by
  obtain ⟨new, hnew⟩ := hgrow
  obtain ⟨row, hrow, hu⟩ := Option.map_eq_some_iff.mp h
  rw [DataAccess.getUser, ← hnew, List.find?_append, hrow]
  exact congrArg some hu

theorem getUser_past {s : State} (h : (server SHA256).ReachableWhen ok s c) (he : e ∈ c.history) {n : Bytes}
    {u : User} (hx : e.act = ⟨.getUser n, .ok (some u)⟩) : c.state.db.getUser n = some u := by
  obtain ⟨c₁, c₂, -, hs, -, hsteps⟩ := h.event_mem he
  have hget := hs.state
  rw [hx] at hget
  exact DataAccess.getUser_grow ((users_grow_step hs).trans (steps_users_grow hsteps)) (State.query_ok hget).2.symm

/-- What a turn was told of a user. -/
theorem getUser_pre {s : State} (h : (server SHA256).ReachableWhen ok s c) {later earlier : List Event}
    (hh : c.history = later ++ e :: earlier) {n : Bytes} {u : User} (hx : ⟨.getUser n, .ok (some u)⟩ ∈ e.pre) :
    c.state.db.getUser n = some u := by
  obtain ⟨g, hg, -, hact⟩ := h.pre_mem hh hx
  exact getUser_past h (by rw [hh]; simp [hg]) hact

end

end NetChat
