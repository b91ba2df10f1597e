/-
What the tables and the pools refer to. SQLite enforces no foreign key here and
nothing ties the pools to the tables, so that every id in a row or a pool is that of a row
is the handlers' doing. It holds in every process, however often the server
was ended before, at any point of any handler, and started again.
-/
import NetChat.Addressed
import NetChat.Authorised
import NetChat.Boot
import NetChat.Challenge
import NetChat.FilePaths
import NetChat.Uploads

namespace NetChat

open Interleave Prog Server DataAccess

variable {SHA256 : Bytes → Bytes} {ok : Config → Event → Prop} {s : State} {c c' : Config} {e : Event} {uid : Int32}

/-- Some user has this id, as `getInt` reads it. -/
def DataAccess.hasUser (db : DataAccess) (uid : Int32) : Prop := ∃ u ∈ db.getAllUsers, u.id = uid

/-- Some user has this id. -/
def DataAccess.hasUserById (db : DataAccess) (uid : Int32) : Prop := ∃ u ∈ db.users, (u.user_id : Int) = uid.toInt

/-- Rows are numbered from 1, keys are distinct, and what a row names is there: its
receiver, and its sender if that is not the 0 of an unknown token. -/
structure TablesIntact (db : DataAccess) : Prop where
  user_ids : db.users.map UserRow.user_id = List.range' 1 db.users.length
  usernames : (db.users.map UserRow.username).Nodup
  message_ids : db.messages.map MessageRow.message_id = List.range' 1 db.messages.length
  file_ids : (db.files.map FileRow.file_id).Nodup
  uuids : ∀ f ∈ db.files.map FileRow.file_id, isUUID f = true
  senders : ∀ r ∈ db.messages, r.sender_id = 0 ∨ db.hasUser r.sender_id
  receivers : ∀ r ∈ db.messages, db.hasUserById r.receiver_id

/-- The tables are intact, and what the disk and the pools name is in them. -/
structure Intact (s : State) : Prop where
  tables : TablesIntact s.db
  disk : ∀ f, s.disk f ≠ none → f ∈ s.db.files.map FileRow.file_id
  tokens : ∀ token uid, s.token_pool token = some uid → isUUID token = true ∧ s.db.hasUser uid
  challenges : ∀ uid challenge, s.challenge_pool uid = some challenge →
    isChallenge challenge = true ∧ s.db.hasUser uid
  senders : ∀ uid, s.keepalive_sender_mp uid ≠ none → uid = 0 ∨ s.db.hasUser uid
  pending : ∀ f r m, s.file_msg_pool f = some (r, m) →
    f ∈ s.db.files.map FileRow.file_id ∧ m.message.content = f ∧ m.message.to_ = r ∧ Backed s.db m

/-! ## What the pools name -/

theorem DataAccess.hasUser.grow {db db' : DataAccess} (h : db.hasUser uid) (hgrow : db.users <+: db'.users) :
    db'.hasUser uid := by
  obtain ⟨u, hu, rfl⟩ := h
  exact ⟨u, (hgrow.map UserRow.toUser).subset hu, rfl⟩

theorem hasUser_of_getUser {db : DataAccess} {n : Bytes} {u : User} (h : db.getUser n = some u) : db.hasUser u.id := by
  obtain ⟨row, hrow, rfl⟩ := Option.map_eq_some_iff.mp h
  exact ⟨_, List.mem_map_of_mem (List.mem_of_find?_eq_some hrow), rfl⟩

/-- A generated id is a UUID. -/
theorem drawn_uuid (h : (server SHA256).ReachableWhen ok s c) (he : e ∈ c.history) {uuid : Bytes}
    (hx : e.act = ⟨.getUUID, uuid⟩) : isUUID uuid = true := by
  obtain ⟨c₁, c₂, -, hs, -, -⟩ := h.event_mem he
  have hdraw := hs.state
  rw [hx] at hdraw
  simp only [server, State.step, Option.ite_none_right_eq_some] at hdraw
  exact hdraw.1

section
variable {file : DbFile} {disk : Bytes → Option Bytes} (h : (server SHA256).ReachableWhen ok (.boot file disk) c)
include h

theorem token_intact {token : Bytes} (ht : c.state.token_pool token = some uid) :
    isUUID token = true ∧ c.state.db.hasUser uid := by
  obtain ⟨later, login, earlier, hh, hi, -⟩ := token_pool_issuedTo_of_empty h rfl ht
  have hmem : login ∈ c.history := by rw [hh]; simp
  refine ⟨?_, issuesToken_registered h hmem hi⟩
  obtain ⟨i, fd, conn, n, pkt, user, challenge, -, -, hpre, -⟩ := hi
  have hdraw := h.pre_past hmem (x := ⟨.getUUID, token⟩) (q := [])
    (p := received fd conn n pkt ++ [⟨.getUser (pkt.request LoginRequest).username, .ok (some user)⟩,
      ⟨.getChallengeMp user.id, challenge⟩]) (by rw [hpre]; rfl)
  exact drawn_uuid h hdraw rfl

/-- What a token was looked up to is 0 or a user. -/
theorem resolved_intact (he : e ∈ c.history) {token : Bytes} (hx : e.act = ⟨.getUserIdByToken token, uid⟩) :
    uid = 0 ∨ c.state.db.hasUser uid := by
  obtain ⟨c₁, c₂, h₁, hs, -, hsteps⟩ := h.event_mem he
  have hlook := hs.state
  rw [hx] at hlook
  simp only [server, State.step, Option.ite_none_right_eq_some, Option.some.injEq] at hlook
  by_cases huid : uid = 0
  · exact .inl huid
  · obtain ⟨-, hpool⟩ := (getUserIdByToken_eq huid).mp hlook.1.symm
    exact .inr ((token_intact h₁ hpool).2.grow ((users_grow_step hs).trans (steps_users_grow hsteps)))

theorem challenge_intact {challenge : Bytes} (hc : c.state.challenge_pool uid = some challenge) :
    isChallenge challenge = true ∧ c.state.db.hasUser uid := by
  rcases h.last_write (fun s => s.challenge_pool uid) (Op.writesChallenge uid)
    (fun _ _ _ hs => step_challenge_pool hs uid) with ⟨-, hinit⟩ | ⟨later, g, earlier, hh, -, hw⟩
  · rw [hinit] at hc
    cases hc
  · rw [hc] at hw
    have ho : g.act.op = .setChallengeMp uid challenge := by
      cases hop : g.act.op <;> rw [hop] at hw <;> simp only [Op.writesChallenge, reduceCtorEq] at hw
      · split at hw <;> simp_all
      · split at hw <;> simp_all
    obtain ⟨c₁, c₂, h₁, -, hs, -, -⟩ := h.event hh
    obtain ⟨i, fd, conn, n, pkt, user, seed, -, -, hpre, rfl, -⟩ := setChallengeMp_gives h₁ hs ho
    have hmem : g ∈ c.history := by rw [hh]; simp
    constructor
    · have hgen := h.pre_past hmem (x := ⟨.genChallenge seed, challenge⟩) (q := [])
        (p := received fd conn n pkt ++ [⟨.getUser (pkt.request LoginPreRequest).username, .ok (some user)⟩,
          ⟨.time, seed⟩]) (by rw [hpre]; rfl)
      obtain ⟨c₃, c₄, -, hs₃, -, -⟩ := h.event_mem hgen
      have hstep := hs₃.state
      simp only [server, State.step, Option.ite_none_right_eq_some] at hstep
      exact hstep.1
    · have hget := h.pre_past hmem (x := ⟨.getUser (pkt.request LoginPreRequest).username, .ok (some user)⟩)
        (p := received fd conn n pkt) (by rw [hpre])
      exact hasUser_of_getUser (getUser_past h hget rfl)

theorem sender_intact (hsnd : c.state.keepalive_sender_mp uid ≠ none) : uid = 0 ∨ c.state.db.hasUser uid := by
  obtain ⟨snd, hsnd⟩ := Option.ne_none_iff_exists'.mp hsnd
  obtain ⟨g, hg, ho⟩ := sender_given_of_none h rfl hsnd
  obtain ⟨c₁, c₂, h₁, hs, -, -⟩ := h.event_mem hg
  obtain ⟨-, conn, -, -, -, -, -, -, -, i, n, pkt, l, -, -, hpre, -⟩ := setFd_installs h₁ hs ho
  exact resolved_intact h (h.pre_past hg hpre) rfl

/-- The row of a step that inserts one names what is there. -/
theorem insert_intact (hs : (server SHA256).Step c e c') {m : Message} (hx : e.act = ⟨.insertMessage m, .ok 1⟩) :
    (m.message.from_ = 0 ∨ c.state.db.hasUser m.message.from_) ∧ c.state.db.hasUserById m.message.to_ := by
  obtain ⟨i, fd, conn, n, pkt, l, -, hpre, -, hi⟩ := step_handler handler_sendMessage h hs (by rw [hx]) rfl
  obtain ⟨u, msgs, timestamp, rfl, rfl⟩ := onSendMessageRequest_insertMessage hi
  constructor
  · have hlook := h.log_history (t := e.tid) (p := received fd conn n pkt) (x :=
      ⟨.getUserIdByToken (pkt.request SendMessageRequest).token, (pkt.request SendMessageRequest).message.from_⟩)
      (by rw [hs.log, hpre]; rfl)
    exact resolved_intact h hlook rfl
  · have hget := h.log_history (t := e.tid) (x :=
      ⟨.getUserById (pkt.request SendMessageRequest).message.to_, .ok (some u)⟩) (p := received fd conn n pkt ++
        [⟨.getUserIdByToken (pkt.request SendMessageRequest).token, (pkt.request SendMessageRequest).message.from_⟩])
      (by rw [hs.log, hpre]; rfl)
    exact getUserById_past h hget rfl

end

theorem steps_fileIds_grow (h : (server SHA256).Steps ok c c') :
    c.state.db.files.map FileRow.file_id <+: c'.state.db.files.map FileRow.file_id :=
  h.state_invariant (fun s => c.state.db.files.map FileRow.file_id <+: s.db.files.map FileRow.file_id)
    (fun _ _ _ hi hs => hi.trans (step_fileIds_grow hs)) (List.prefix_refl _)

/-- A file is saved under the id of a row. -/
theorem saved_intact (h : (server SHA256).ReachableWhen ok s c) {f content : Bytes} {tid : Tid}
    (hi : ((server SHA256).body tid).Issues (c.threads tid).log (.saveToDisk f content)) :
    f ∈ c.state.db.files.map FileRow.file_id := by
  obtain ⟨i, fd, conn, n, pkt, hd, l, rfl, hlog, hp, hh, hi⟩ := issues_handler hi rfl
  rw [handler_fileUpload hp] at hh
  cases hh
  have hstep := onFileUploadRequest_issues hi
  generalize hop : Op.saveToDisk f content = op at hstep
  cases hstep with
  | @save uid row huid =>
    cases hop
    obtain ⟨c₁, c₂, -, hs, hok, hsteps⟩ := h.log_event (t := .worker i)
      (x := ⟨.getFile (pkt.request FileUploadRequest).id, .ok (some row)⟩)
      (p := received fd conn n pkt ++ [⟨.getUserIdByToken (pkt.request FileUploadRequest).token, uid⟩])
      (q := [⟨.checkDiskExistence row.id, false⟩]) (by rw [hlog]; rfl)
    obtain ⟨r, hr, rfl⟩ := Option.map_eq_some_iff.mp (State.query_ok hs.state).2.symm
    exact (steps_fileIds_grow (Machine.Steps.trans (.tail .refl hs hok) hsteps)).subset
      (List.mem_map_of_mem (List.mem_of_find?_eq_some hr))
  | _ => cases hop

/-! ## What the tables name -/

theorem TablesIntact.empty : TablesIntact .empty where
  user_ids := rfl
  usernames := List.nodup_nil
  message_ids := rfl
  file_ids := List.nodup_nil
  uuids := by simp [DataAccess.empty]
  senders := by simp [DataAccess.empty]
  receivers := by simp [DataAccess.empty]

/-- The rows go on naming what is there as tables grow. -/
theorem TablesIntact.insertUser {db db' : DataAccess} (ht : TablesIntact db) {n p : Bytes}
    (h : db.insertUser n p = some db') : TablesIntact db' := by
  simp only [DataAccess.insertUser, Option.ite_none_left_eq_some, Option.some.injEq, List.any_eq_true, beq_iff_eq,
    not_exists, not_and] at h
  obtain ⟨hn, rfl⟩ := h
  have hgrow : db.users <+: db.users ++ [⟨db.users.length + 1, n, p⟩] := List.prefix_append _ _
  exact {
    user_ids := by simp [ht.user_ids, List.range'_concat, Nat.add_comm]
    usernames := by
      rw [List.map_append, List.map_singleton, List.nodup_append]
      refine ⟨ht.usernames, by simp, fun name hname name' hname' => ?_⟩
      obtain ⟨r, hr, rfl⟩ := List.mem_map.mp hname
      rw [List.mem_singleton.mp hname']
      exact hn r hr
    message_ids := ht.message_ids
    file_ids := ht.file_ids
    uuids := ht.uuids
    senders := fun r hr => (ht.senders r hr).imp_right fun hu => hu.grow hgrow
    receivers := fun r hr => Exists.imp (fun u hu => ⟨hgrow.subset hu.1, hu.2⟩) (ht.receivers r hr) }

theorem TablesIntact.insertMessage {db : DataAccess} (ht : TablesIntact db) {m : Message}
    (hfrom : m.message.from_ = 0 ∨ db.hasUser m.message.from_) (hto : db.hasUserById m.message.to_) :
    TablesIntact (db.insertMessage m) where
  user_ids := ht.user_ids
  usernames := ht.usernames
  message_ids := by simp [DataAccess.insertMessage, ht.message_ids, List.range'_concat, toRow, Nat.add_comm]
  file_ids := ht.file_ids
  uuids := ht.uuids
  senders := by
    intro r hr
    rcases List.mem_append.mp hr with hr | hr
    · exact ht.senders r hr
    · obtain rfl := List.mem_singleton.mp hr
      exact hfrom
  receivers := by
    intro r hr
    rcases List.mem_append.mp hr with hr | hr
    · exact ht.receivers r hr
    · obtain rfl := List.mem_singleton.mp hr
      exact hto

theorem TablesIntact.files {db db' : DataAccess} (ht : TablesIntact db) (husers : db'.users = db.users)
    (hmessages : db'.messages = db.messages) (hfiles : (db'.files.map FileRow.file_id).Nodup)
    (huuids : ∀ f ∈ db'.files.map FileRow.file_id, isUUID f = true) : TablesIntact db' := by
  obtain ⟨users, messages, files, rowid⟩ := db'
  simp only at husers hmessages
  subst husers hmessages
  exact ⟨ht.user_ids, ht.usernames, ht.message_ids, hfiles, huuids, ht.senders, ht.receivers⟩

/-- **A step keeps the tables intact.** -/
theorem tables_step {file : DbFile} {disk : Bytes → Option Bytes}
    (h : (server SHA256).ReachableWhen ok (.boot file disk) c) (hs : (server SHA256).Step c e c') (hok : ok c e)
    (ht : TablesIntact c.state.db) : TablesIntact c'.state.db := by
  by_cases hkeep : e.act.op.keepsDb
  · rwa [step_db hs.state hkeep]
  · have hstep := hs.state
    generalize hx : e.act = x at hkeep hstep
    obtain ⟨o, r⟩ := x
    cases o <;> simp only [Op.keepsDb, Op.part, ne_eq, reduceCtorEq, not_false_eq_true, and_self, not_true_eq_false,
      Option.some.injEq, false_and, and_false] at hkeep
    case insertUser n p =>
      simp only [server, State.step, State.insert_eq_some] at hstep
      rcases hstep with ⟨db, -, hdb, heq⟩ | ⟨-, heq⟩
      · rw [heq]
        exact ht.insertUser hdb
      · rwa [heq]
    case insertMessage m =>
      simp only [server, State.step, State.insert_eq_some] at hstep
      rcases hstep with ⟨db, rfl, hdb, heq⟩ | ⟨-, heq⟩
      · cases hdb
        obtain ⟨hfrom, hto⟩ := insert_intact h hs hx
        rw [heq]
        exact ht.insertMessage hfrom hto
      · rwa [heq]
    case insertFile uuid =>
      simp only [server, State.step, State.insert_eq_some] at hstep
      rcases hstep with ⟨db, rfl, hdb, heq⟩ | ⟨-, heq⟩
      · have huuid := (insertFile_creates h hs hx).uuid (.step h hs hok) (by rw [hs.history]; simp)
        simp only [DataAccess.insertFile, Option.ite_none_left_eq_some, Option.some.injEq, List.any_eq_true,
          beq_iff_eq] at hdb
        obtain ⟨hnew, rfl⟩ := hdb
        rw [heq]
        refine ht.files rfl rfl ?_ fun f hf => ?_
        · rw [List.map_append, List.map_singleton, List.nodup_append]
          refine ⟨ht.file_ids, by simp, fun f hf f' hf' => ?_⟩
          rintro rfl
          obtain rfl := List.mem_singleton.mp hf'
          exact hnew (List.mem_map.mp hf)
        · rw [List.map_append, List.mem_append] at hf
          rcases hf with hf | hf
          · exact ht.uuids f hf
          · obtain rfl := List.mem_singleton.mp hf
            exact huuid
      · rwa [heq]
    case updateFile v =>
      -- the update leaves the ids as they are
      have hframe := State.step_unchanged hstep
      have hids : c'.state.db.files.map FileRow.file_id = c.state.db.files.map FileRow.file_id := by
        rcases step_files hstep with hids | ⟨uuid, hx', -⟩
        · exact hids
        · cases hx'
      refine ht.files (hframe.users (by simp [Op.part])) (hframe.messages (by simp [Op.part])) ?_ ?_
      · rw [hids]
        exact ht.file_ids
      · rw [hids]
        exact ht.uuids

/-! ## Every process -/

theorem Started.boot (h : Started SHA256 s) : ∃ file disk, s = .boot file disk := by
  cases h with
  | first | again => exact ⟨_, _, rfl⟩

theorem tables_intact (h : Running SHA256 c) : TablesIntact c.state.db := by
  refine h.invariant (fun c => TablesIntact c.state.db) .empty (fun s c e c' hs hr ht hstep => ?_)
    fun c disk _ ht _ => ht.files rfl rfl ht.file_ids ht.uuids
  obtain ⟨file, disk, rfl⟩ := hs.boot
  exact tables_step hr hstep trivial ht

/-- What is on disk, or was about to be when the process ended, belongs to a row. -/
theorem disk_intact (h : Running SHA256 c) :
    ∀ f, c.state.disk f ≠ none → f ∈ c.state.db.files.map FileRow.file_id := by
  refine h.invariant (fun c => ∀ f, c.state.disk f ≠ none → f ∈ c.state.db.files.map FileRow.file_id)
    (fun _ hf => absurd rfl hf) (fun s c e c' _ hr hi hstep f hf => ?_) fun c disk hr hi hdisk f hf => ?_
  · have hgrow := (step_fileIds_grow hstep.state).subset
    rcases step_disk hstep.state f with ⟨content, out, hx, -⟩ | ⟨-, hsame⟩
    · have hsave := hstep.issues hr
      rw [hx, ← hstep.log] at hsave
      exact hgrow (saved_intact hr hsave)
    · rw [hsame] at hf
      exact hgrow (hi f hf)
  · obtain ⟨s, -, hr⟩ := hr
    rcases hdisk f with hsame | ⟨t, content, n, hsave, -⟩
    · exact hi f (hsame ▸ hf)
    · exact saved_intact hr hsave

/-- **Tables and pools name what is there**, in every process, wherever the ones before
it ended. -/
theorem intact (h : Running SHA256 c) : Intact c.state := by
  have htables := tables_intact h
  have hdisk := disk_intact h
  obtain ⟨s, hs, hr⟩ := h
  obtain ⟨file, disk, rfl⟩ := hs.boot
  refine ⟨htables, hdisk, fun _ _ => token_intact hr, fun _ _ => challenge_intact hr, fun _ => sender_intact hr, ?_⟩
  intro f r m hp
  obtain ⟨hf, -, hcontent, hto, hb⟩ := pending_addressed_of_empty hr (fun _ => rfl) hp
  exact ⟨hf, hcontent, hto, hb⟩

namespace Example

/-- After a restart Bob connects and logs in again. -/
def returns : Schedule := connects 5 ++ challenges 5 0 bob challenge ++ logsIn 5 0 bob challenge response token

end Example

/-- The server ended while a picture was pending; Bob logged in to the next one. -/
theorem intact_returns : ∃ c : Config, c.state.db.messages.length = 1 ∧
    c.state.db.files.map FileRow.file_id = [Example.fileid] ∧ c.state.file_msg_pool Example.fileid = none ∧
    c.state.token_pool Example.token = some 1 ∧ Intact c.state := by
  obtain ⟨c, c', hr, hr', hmessages, hfiles, hpending, htoken⟩ := restarted_of_runs Example.SHA256 Example.pictured
    Example.returns (fun _ c => c.state.db.messages.length = 1 ∧
      c.state.db.files.map FileRow.file_id = [Example.fileid] ∧ c.state.file_msg_pool Example.fileid = none ∧
      c.state.token_pool Example.token = some 1) (by decide +kernel)
  exact ⟨c', hmessages, hfiles, hpending, htoken, intact ⟨_, .again .first hr .settled, hr'⟩⟩

end NetChat
