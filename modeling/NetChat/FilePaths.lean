/-
The paths `FileStorage` builds. Each is `path_prefix_` joined with the id of a
row, and the ids of rows are those `createFile` generated: the id a request
names only selects a row, and no update writes the column. So nothing a client
chose is in a path.
-/
import NetChat.Announced

namespace NetChat

open Interleave Prog Server

variable {SHA256 : Bytes → Bytes} {ok : Config → Event → Prop} {c c' : Config} {e : Event} {l : List Entry} {o : Op}

/-! ## Paths -/

/-- `FileStorage::path_prefix_` -/
def path_prefix_ : Bytes := bytes "files"

/-- `operator/` of two `std::filesystem::path`s: an absolute one on the right
replaces the left one, and a `/` goes between them when the left one ends in a
file name. -/
def joinPath (p q : Bytes) : Bytes :=
  if q.head? = some 47 then q
  else if p = [] ∨ p.getLast? = some 47 then p ++ q
  else p ++ 47 :: q

/-- The path the methods of `FileStorage` build, each from its `id_`. -/
def Op.path : Op → Option Bytes
  | .checkDiskExistence id | .saveToDisk id _ | .loadFromDisk id => some (joinPath path_prefix_ id)
  | _ => none

/-- The file an operation of `FileStorage` is about. -/
def Op.file : Op → Option Bytes
  | .checkDiskExistence id | .saveToDisk id _ | .loadFromDisk id => some id
  | _ => none

theorem Op.path_eq (o : Op) : o.path = o.file.map (joinPath path_prefix_) := by cases o <;> rfl

/-- Lower-case hex digits and dashes. -/
def isHexDash (b : UInt8) : Bool := b == 45 || (48 ≤ b && b ≤ 57) || (97 ≤ b && b ≤ 102)

/-- One component of a path, and not `.` or `..`: no separator, no dot, no NUL. -/
structure PlainName (id : Bytes) : Prop where
  nonempty : id ≠ []
  chars : ∀ b ∈ id, isHexDash b = true

theorem plainName_uuid {uuid : Bytes} (h : isUUID uuid = true) : PlainName uuid := by
  simp only [isUUID, Bool.and_eq_true, beq_iff_eq, List.all_eq_true] at h
  refine ⟨fun hnil => ?_, fun b hb => ?_⟩
  · rw [hnil] at h
    cases h.1
  · obtain ⟨i, hi, hget⟩ := List.getElem_of_mem hb
    have hchar := h.2 (b, i) (List.mk_mem_zipIdx_iff_getElem?.mpr (by rw [List.getElem?_eq_getElem hi, hget]))
    dsimp only at hchar
    unfold isHexDash
    split at hchar
    · rw [hchar]
      rfl
    · rw [Bool.or_assoc, hchar, Bool.or_true]

/-- A plain name is appended as a component. -/
theorem PlainName.join {id : Bytes} (h : PlainName id) : joinPath path_prefix_ id = path_prefix_ ++ 47 :: id := by
  have hhead : id.head? ≠ some 47 := fun hh => absurd (h.chars 47 (List.mem_of_head? hh)) (by decide)
  have hprefix : ¬ (path_prefix_ = [] ∨ path_prefix_.getLast? = some 47) := by decide +kernel
  rw [joinPath, if_neg hhead, if_neg hprefix]

/-! ## Who builds a path -/

section
variable {pkt : Packet}

theorem unfiled_onLoginPreRequest : (onLoginPreRequest pkt).Sat (fun o => o.file = none) fun _ => True := by
  simp only [onLoginPreRequest, genChallenge, bind_eq, op_bind, sat_op, sat_orTerminate]
  refine ⟨rfl, fun _ u _ => ?_⟩
  cases u with
  | none => trivial
  | some u => exact ⟨rfl, fun _ => ⟨rfl, fun _ => ⟨rfl, fun _ => trivial⟩⟩⟩

theorem unfiled_onLoginRequest : (onLoginRequest SHA256 pkt).Sat (fun o => o.file = none) fun _ => True := by
  simp only [onLoginRequest, genToken, bind_eq, op_bind, sat_op, sat_orTerminate]
  refine ⟨rfl, fun _ u _ => ?_⟩
  cases u with
  | none => trivial
  | some u =>
    refine ⟨rfl, fun c => ?_⟩
    simp only [ret_bind]
    split
    · exact ⟨rfl, fun _ => ⟨rfl, fun _ => ⟨rfl, fun _ => trivial⟩⟩⟩
    · exact ⟨rfl, fun _ => trivial⟩

theorem unfiled_onSendMessageRequest : (onSendMessageRequest pkt).Sat (fun o => o.file = none) fun _ => True := by
  refine ⟨rfl, fun uid => ?_⟩
  simp only [ret_bind, bind_eq]
  split
  · trivial
  simp only [op_bind, sat_op, sat_orTerminate]
  refine ⟨rfl, fun _ u _ => ?_⟩
  cases u with
  | none => trivial
  | some u =>
    simp only [g_db.createMsgByRawMsg, g_db.createMsg, g_db.createFile, bind_eq, pure_eq, op_bind, Prog.bind_assoc,
      ret_bind, sat_op, sat_orTerminate]
    refine ⟨rfl, fun _ msgs _ => ⟨rfl, fun timestamp => ⟨rfl, fun _ changed _ => ?_⟩⟩⟩
    split
    · refine ⟨rfl, fun rowid => ?_⟩
      simp only [ret_bind]
      split
      · refine ⟨rfl, fun uuid => ⟨rfl, fun ret => ?_⟩⟩
        beta_reduce
        split <;> trivial
      · trivial
    · trivial

theorem unfiled_onContactMessageRequest :
    (onContactMessageRequest pkt).Sat (fun o => o.file = none) fun _ => True := by
  simp only [onContactMessageRequest, bind_eq, op_bind, ret_bind, sat_op, sat_orTerminate]
  refine ⟨rfl, fun _ => ⟨rfl, fun _ m _ => ?_⟩⟩
  cases m <;> trivial

/-- A handler of another type touches no file. -/
theorem handler_unfiled {fd : Int32} {hd : Code Reply} (hh : handler SHA256 fd pkt = some hd)
    (hup : pkt.packetid ≠ PacketType.val .FileUploadRequest)
    (hdown : pkt.packetid ≠ PacketType.val .FileDownloadRequest) : hd.Sat (fun o => o.file = none) fun _ => True := by
  unfold handler at hh
  split at hh <;> simp only [Option.some.injEq, reduceCtorEq] at hh
  all_goals
    rename_i heq
    have hp := PacketType.cast_eq_some.mp heq
    subst hh
  · trivial
  · trivial
  · simp only [onRegisterRequest, g_db.createUser]
    split
    · exact ⟨rfl, fun _ => trivial⟩
    · trivial
  · exact unfiled_onLoginPreRequest
  · exact unfiled_onLoginRequest
  · exact ⟨rfl, fun _ => trivial⟩
  · exact unfiled_onSendMessageRequest
  · exact absurd hp hup
  · exact absurd hp hdown
  · exact unfiled_onContactMessageRequest

/-- The token of the request and the row of its id, before a file is touched: what the
two handlers have looked up, and the file they work on then. -/
def LooksUp (token rid : Bytes) (l : List Entry) (f : Bytes) : Prop :=
  ∃ uid row rest, uid ≠ 0 ∧ l = ⟨.getUserIdByToken token, uid⟩ :: ⟨.getFile rid, .ok (some row)⟩ :: rest ∧ f = row.id

theorem file_of_sat {α : Type} {p : Code α} {Q : α → Prop} {f f' : Bytes}
    (hp : p.Sat (fun o => o.file = none ∨ o.file = some f') Q) (h : p.Issues l o) (ho : o.file = some f) : f = f' := by
  rcases hp.issues h with hnone | hf
  · rw [ho] at hnone
    cases hnone
  · exact Option.some.inj (ho.symm.trans hf)

theorem onFileUploadRequest_file {f : Bytes} (h : (onFileUploadRequest pkt).Issues l o) (ho : o.file = some f) :
    LooksUp (pkt.request FileUploadRequest).token (pkt.request FileUploadRequest).id l f := by
  simp only [onFileUploadRequest, bind_eq, pure_eq, op_bind, ret_bind, issues_op] at h
  rcases h with ⟨-, rfl⟩ | ⟨uid, l, rfl, h⟩
  · cases ho
  split at h
  · simp at h
  rename_i huid
  simp only [issues_op, issues_orTerminate] at h
  rcases h with ⟨-, rfl⟩ | ⟨_, l, rfl, row, rfl, h⟩
  · cases ho
  cases row with
  | none => simp at h
  | some row =>
    -- all that is left is about the row's file
    refine ⟨uid, row, l, huid, rfl, file_of_sat (Q := fun _ => True) ?_ h ho⟩
    refine ⟨.inr rfl, fun exists_ => ?_⟩
    cases exists_ with
    | true =>
      refine ⟨.inl rfl, fun ret => ?_⟩
      simp only [ret_bind]
      split <;> trivial
    | false =>
      refine ⟨.inr rfl, fun out => ⟨.inl rfl, fun ret => ?_⟩⟩
      simp only [ret_bind]
      split <;> trivial

/-- **What the handler of a `FileDownloadRequest` issues**, and after which log. -/
inductive DownloadStep (q : FileDownloadRequest) : List Entry → Op → Prop
  | token : DownloadStep q [] (.getUserIdByToken q.token)
  | file {uid : Int32} : DownloadStep q [⟨.getUserIdByToken q.token, uid⟩] (.getFile q.id)
  | onDisk {uid : Int32} {row : FileStorage} : uid ≠ 0 → DownloadStep q
      [⟨.getUserIdByToken q.token, uid⟩, ⟨.getFile q.id, .ok (some row)⟩] (.checkDiskExistence row.id)
  | load {uid : Int32} {row : FileStorage} : uid ≠ 0 → DownloadStep q [⟨.getUserIdByToken q.token, uid⟩,
      ⟨.getFile q.id, .ok (some row)⟩, ⟨.checkDiskExistence row.id, true⟩] (.loadFromDisk row.id)

theorem onFileDownloadRequest_issues (h : (onFileDownloadRequest pkt).Issues l o) :
    DownloadStep (pkt.request FileDownloadRequest) l o := by
  simp only [onFileDownloadRequest, bind_eq, pure_eq, op_bind, ret_bind, issues_op] at h
  rcases h with ⟨rfl, rfl⟩ | ⟨uid, l, rfl, h⟩
  · exact .token
  split at h
  · simp at h
  rename_i huid
  simp only [issues_op, issues_orTerminate] at h
  rcases h with ⟨rfl, rfl⟩ | ⟨_, l, rfl, row, rfl, h⟩
  · exact .file
  cases row with
  | none => simp at h
  | some row =>
    simp only [issues_op] at h
    rcases h with ⟨rfl, rfl⟩ | ⟨exists_, l, rfl, h⟩
    · exact .onDisk huid
    cases exists_ with
    | true =>
      simp only [if_true, issues_op] at h
      rcases h with ⟨rfl, rfl⟩ | ⟨content, l, rfl, h⟩
      · exact .load huid
      · cases content <;> simp at h
    | false => simp at h

theorem DownloadStep.looksUp {q : FileDownloadRequest} {f : Bytes} (h : DownloadStep q l o) (ho : o.file = some f) :
    LooksUp q.token q.id l f := by
  cases h with
  | token | file => cases ho
  | @onDisk uid row huid | @load uid row huid => exact ⟨uid, row, _, huid, rfl, (Option.some.inj ho).symm⟩

/-- The two lookups come first, the token's before the row's. -/
def LookupFirst (l : List Entry) (o : Op) : Prop :=
  (∀ token, o = .getUserIdByToken token → l = []) ∧ ∀ rid, o = .getFile rid → ∃ x, l = [x]

theorem UploadStep.lookupFirst {q : FileUploadRequest} (h : UploadStep q l o) : LookupFirst l o := by
  cases h with
  | file => exact ⟨nofun, fun _ _ => ⟨_, rfl⟩⟩
  | _ => exact ⟨fun _ _ => by first | rfl | contradiction, nofun⟩

theorem DownloadStep.lookupFirst {q : FileDownloadRequest} (h : DownloadStep q l o) : LookupFirst l o := by
  cases h with
  | file => exact ⟨nofun, fun _ _ => ⟨_, rfl⟩⟩
  | _ => exact ⟨fun _ _ => by first | rfl | contradiction, nofun⟩

end

theorem Op.ofCallback.file {t : PacketType} (h : o.ofCallback t) : o.file = none := by
  rcases h with h | h <;> cases o <;>
    first | rfl | exact absurd h Bool.false_ne_true | exact absurd h (Option.some_ne_none _).symm

/-- **Who touches a file**: a worker with an upload or a download, whose token resolved
to a user and whose id selected the file's row. -/
theorem issues_file {tid : Tid} {f : Bytes} (h : ((server SHA256).body tid).Issues l o) (ho : o.file = some f) :
    ∃ i fd conn n pkt token rid l', tid = .worker i ∧ l = received fd conn n pkt ++ l' ∧
      (pkt.packetid = PacketType.val .FileUploadRequest ∨ pkt.packetid = PacketType.val .FileDownloadRequest) ∧
      LooksUp token rid l' f := by
  obtain ⟨i, rfl, hi⟩ := issues_worker h (by cases o <;> first | rfl | cases ho) (by cases o <;> first | rfl | cases ho)
  rcases worker_issues hi with ⟨-, rfl⟩ | ⟨fd, -, rfl⟩ | ⟨fd, conn, n, pkt, hd, l', rfl, hh, hp⟩
  · cases ho
  · cases ho
  obtain ⟨t, -, hs⟩ := handler_isHandler hh
  cases hp with
  | handling hi =>
    by_cases hup : pkt.packetid = PacketType.val .FileUploadRequest
    · rw [handler_fileUpload hup] at hh
      cases hh
      exact ⟨i, fd, conn, n, pkt, _, _, l', rfl, rfl, .inl hup, onFileUploadRequest_file hi ho⟩
    by_cases hdown : pkt.packetid = PacketType.val .FileDownloadRequest
    · rw [handler_fileDownload hdown] at hh
      cases hh
      exact ⟨i, fd, conn, n, pkt, _, _, l', rfl, rfl, .inr hdown, (onFileDownloadRequest_issues hi).looksUp ho⟩
    have hnone := (handler_unfiled hh hup hdown).issues hi
    rw [ho] at hnone
    cases hnone
  | replying hr heq =>
    subst heq
    cases ho
  | callback hl hok hr hcb hi =>
    have hnone := (((hs.runs hr).2.2 _ hcb).2.issues hi).file
    rw [ho] at hnone
    cases hnone
  | dropping hl hok hr heq | closing hl hok hr heq =>
    subst heq
    cases ho

/-! ## Where the ids of rows come from -/

/-- `g` is the step of a `createFile` that registered the id it had generated. -/
def CreatesFile (id : Bytes) (g : Event) : Prop := g.act = ⟨.insertFile id, .ok 1⟩ ∧ ⟨.getUUID, id⟩ ∈ g.pre

theorem insertFile_creates {s : State} (h : (server SHA256).ReachableWhen ok s c) (hs : (server SHA256).Step c e c')
    {uuid : Bytes} (hx : e.act = ⟨.insertFile uuid, .ok 1⟩) : CreatesFile uuid e := by
  refine ⟨hx, ?_⟩
  obtain ⟨i, fd, conn, n, pkt, l, -, hl, -, hi⟩ := step_handler handler_sendMessage h hs (by rw [hx]) rfl
  rw [hl]
  exact List.mem_append_right _ (onSendMessageRequest_insertFile_uuid hi)

/-- **The id of every row was generated**: only `createFile` inserts, and no update
changes the column. -/
theorem file_id_created (h : (server SHA256).ReachableWhen ok State.initial c) {id : Bytes}
    (hid : id ∈ c.state.db.files.map FileRow.file_id) : ∃ g ∈ c.history, CreatesFile id g := by
  induction h with
  | init => cases hid
  | @step c c' e hr hs _ ih =>
    rw [hs.history]
    have hold : id ∈ c.state.db.files.map FileRow.file_id → ∃ g ∈ e :: c.history, CreatesFile id g := fun hid =>
      let ⟨g, hg, hc⟩ := ih hid
      ⟨g, List.mem_cons_of_mem _ hg, hc⟩
    rcases step_files hs.state with hsame | ⟨uuid, hx, -, hf⟩
    · rw [hsame] at hid
      exact hold hid
    · rw [hf, List.map_append, List.mem_append] at hid
      rcases hid with hid | hid
      · exact hold hid
      · obtain rfl := List.mem_singleton.mp hid
        exact ⟨e, by simp, insertFile_creates hr hs hx⟩

/-- What `createFile` generated is a UUID. -/
theorem CreatesFile.uuid {s : State} {id : Bytes} {g : Event} (hc : CreatesFile id g)
    (h : (server SHA256).ReachableWhen ok s c) (hg : g ∈ c.history) : isUUID id = true := by
  obtain ⟨p, q, hpre⟩ := List.append_of_mem hc.2
  obtain ⟨c₁, c₂, -, hs, -, -⟩ := h.event_mem (h.pre_past hg hpre)
  have hdraw := hs.state
  simp only [server, State.step, Option.ite_none_right_eq_some] at hdraw
  exact hdraw.1

/-! ## The paths of a run -/

/-- The token resolved to no user, or the id found no row. -/
def LookupFails (l : List Entry) : Prop :=
  (∃ token, ⟨.getUserIdByToken token, 0⟩ ∈ l) ∨ ∃ rid, ⟨.getFile rid, .ok none⟩ ∈ l

/-- Every path is the prefix directory joined with an id that an earlier `createFile`
generated, a plain name; and a turn a lookup of which failed builds none. -/
structure PathsGenerated (c : Config) : Prop where
  generated : ∀ later e earlier path, c.history = later ++ e :: earlier → e.act.op.path = some path →
    ∃ id, path = path_prefix_ ++ 47 :: id ∧ PlainName id ∧ ∃ g ∈ earlier, CreatesFile id g
  failed : ∀ e ∈ c.history, LookupFails (e.pre ++ [e.act]) → ∀ x ∈ e.pre ++ [e.act], x.op.path = none

theorem file_of_path {path : Bytes} (h : o.path = some path) :
    ∃ f, o.file = some f ∧ path = joinPath path_prefix_ f := by
  rw [Op.path_eq, Option.map_eq_some_iff] at h
  obtain ⟨f, hf, rfl⟩ := h
  exact ⟨f, hf, rfl⟩

/-- Everything on the log of an event's turn, the event included, is in the history. -/
theorem turn_mem (h : (server SHA256).ReachableWhen ok State.initial c) (he : e ∈ c.history) {p q : List Entry}
    {x : Entry} (hx : e.pre ++ [e.act] = p ++ x :: q) : ⟨e.tid, p, x⟩ ∈ c.history := by
  rcases List.eq_nil_or_concat q with rfl | ⟨q, y, rfl⟩
  · obtain ⟨rfl, hact⟩ := List.append_inj' hx rfl
    cases hact
    exact he
  · rw [List.concat_eq_append, ← List.cons_append, ← List.append_assoc] at hx
    exact h.pre_past he (List.append_inj' hx rfl).1

/-- What `getFile` returned is a row of the table, in whose `file_id` its id is. -/
theorem getFile_mem {db : DataAccess} {u : Bytes} {row : FileStorage} (h : db.getFile u = some row) :
    row.id ∈ db.files.map FileRow.file_id := by
  obtain ⟨r, hr, rfl⟩ := Option.map_eq_some_iff.mp h
  exact List.mem_map.mpr ⟨r, List.mem_of_find?_eq_some hr, rfl⟩

theorem path_generated (h : (server SHA256).ReachableWhen ok State.initial c) {later earlier : List Event}
    {path : Bytes} (hh : c.history = later ++ e :: earlier) (hpath : e.act.op.path = some path) :
    ∃ id, path = path_prefix_ ++ 47 :: id ∧ PlainName id ∧ ∃ g ∈ earlier, CreatesFile id g := by
  obtain ⟨f, hf, rfl⟩ := file_of_path hpath
  obtain ⟨c₁, c₂, h₁, rfl, hs, -, -⟩ := h.event hh
  obtain ⟨i, fd, conn, n, pkt, token, rid, l, -, hpre, -, uid, row, rest, -, hl, rfl⟩ := issues_file (hs.issues h₁) hf
  -- the row was in the table when it was read, so its id had been generated by then
  have hread : e.pre = (received fd conn n pkt ++ [⟨.getUserIdByToken token, uid⟩]) ++
      ⟨.getFile rid, .ok (some row)⟩ :: rest := by
    rw [hpre, hl]
    simp
  obtain ⟨past, later', hh'⟩ := List.append_of_mem (h.pre_history hh hread)
  obtain ⟨c₃, c₄, h₃, hh₃, hs₃, -, -⟩ := h₁.event hh'
  obtain ⟨g, hg, hc⟩ := file_id_created h₃ (getFile_mem (State.query_ok hs₃.state).2.symm)
  have hplain := plainName_uuid (hc.uuid h₃ hg)
  refine ⟨row.id, hplain.join, hplain, g, ?_, hc⟩
  rw [hh', ← hh₃]
  exact List.mem_append_right _ (List.mem_cons_of_mem _ hg)

theorem Op.ofCallback.lookupFirst {t : PacketType} (h : o.ofCallback t) : LookupFirst l o := by
  constructor
  · rintro token rfl
    rcases h with h | h <;> cases h
  · rintro rid rfl
    rcases h with h | h <;> cases h

/-- In a turn that handles an upload or a download the lookups come first. -/
theorem turn_lookupFirst {i : Nat} {fd : Int32} {conn : Conn} {n : Nat} {pkt : Packet}
    (hp : pkt.packetid = PacketType.val .FileUploadRequest ∨ pkt.packetid = PacketType.val .FileDownloadRequest)
    (h : ((server SHA256).body (.worker i)).Issues (received fd conn n pkt ++ l) o) : LookupFirst l o := by
  rcases worker_issues h with ⟨hnil, -⟩ | ⟨fd', hone, -⟩ | ⟨fd', conn', n', pkt', hd, l', hl, hh, hphase⟩
  · simp [received] at hnil
  · simp [received] at hone
  have hpkt := congrArg handling hl
  rw [handling_received, handling_received, Option.some.injEq] at hpkt
  subst hpkt
  obtain ⟨-, rfl⟩ := List.append_inj hl rfl
  obtain ⟨t, -, hs⟩ := handler_isHandler hh
  cases hphase with
  | handling hi =>
    rcases hp with hp | hp
    · rw [handler_fileUpload hp] at hh
      cases hh
      exact (onFileUploadRequest_issues hi).lookupFirst
    · rw [handler_fileDownload hp] at hh
      cases hh
      exact (onFileDownloadRequest_issues hi).lookupFirst
  | callback hl hok hr hcb hi => exact (((hs.runs hr).2.2 _ hcb).2.issues hi).lookupFirst
  | replying _ heq | dropping _ _ _ heq | closing _ _ _ heq =>
    subst heq
    simp [LookupFirst]

/-- What looks up a token in such a turn is the first entry of the handler's log, and
what looks up a row the second. -/
theorem turn_lookups (h : (server SHA256).ReachableWhen ok State.initial c) (he : e ∈ c.history) {i : Nat} {fd : Int32}
    {conn : Conn} {n : Nat} {pkt : Packet} {x₁ x₂ y : Entry} {rest : List Entry} (ht : e.tid = .worker i)
    (hp : pkt.packetid = PacketType.val .FileUploadRequest ∨ pkt.packetid = PacketType.val .FileDownloadRequest)
    (hl : e.pre ++ [e.act] = received fd conn n pkt ++ x₁ :: x₂ :: rest) (hy : y ∈ e.pre ++ [e.act]) :
    (∀ token, y.op = .getUserIdByToken token → y = x₁) ∧ ∀ rid, y.op = .getFile rid → y = x₂ := by
  obtain ⟨p, q, hl'⟩ := List.append_of_mem hy
  obtain ⟨c₁, c₂, h₁, hs, -, -⟩ := h.event_mem (turn_mem h he hl')
  have hi := hs.issues h₁
  rw [ht] at hi
  rw [hl] at hl'
  match p, hl', hi with
  | [], hl', _ =>
    -- the pop
    obtain ⟨rfl, -⟩ := List.cons.inj hl'
    simp
  | [_], hl', _ =>
    -- the read
    obtain ⟨rfl, -⟩ := List.cons.inj (List.cons.inj hl').2
    simp
  | a :: b :: l, hl', hi =>
    simp only [received, List.cons_append, List.nil_append, List.cons.injEq] at hl'
    obtain ⟨rfl, rfl, hl'⟩ := hl'
    obtain ⟨htoken, hrow⟩ := turn_lookupFirst hp hi
    constructor
    · intro token ho
      rw [htoken token ho] at hl'
      exact (List.cons.inj hl').1.symm
    · intro rid ho
      obtain ⟨z, rfl⟩ := hrow rid ho
      exact (List.cons.inj (List.cons.inj hl').2).1.symm

/-- A turn that touches a file looked up a token and a row, and no other. -/
theorem lookups_succeed (h : (server SHA256).ReachableWhen ok State.initial c) (he : e ∈ c.history) {x : Entry}
    {f : Bytes} (hx : x ∈ e.pre ++ [e.act]) (hf : x.op.file = some f) : ¬ LookupFails (e.pre ++ [e.act]) := by
  obtain ⟨p, q, hl⟩ := List.append_of_mem hx
  obtain ⟨c₁, c₂, h₁, hs, -, -⟩ := h.event_mem (turn_mem h he hl)
  obtain ⟨i, fd, conn, n, pkt, token, rid, l, ht, rfl, hp, uid, row, rest, huid, rfl, -⟩ :=
    issues_file (hs.issues h₁) hf
  rw [List.append_assoc] at hl
  rintro (⟨token', hmem⟩ | ⟨rid', hmem⟩)
  · cases (turn_lookups h he ht hp hl hmem).1 token' rfl
    exact huid rfl
  · cases (turn_lookups h he ht hp hl hmem).2 rid' rfl

/-- **No client string reaches a file path.** -/
theorem paths_generated (h : Reachable SHA256 c) : PathsGenerated c where
  generated := fun _ _ _ _ hh hpath => path_generated h hh hpath
  failed := by
    intro e he hfails x hx
    rw [Op.path_eq, Option.map_eq_none_iff, ← Option.not_isSome_iff_eq_none]
    intro hsome
    obtain ⟨f, hf⟩ := Option.isSome_iff_exists.mp hsome
    exact lookups_succeed h he hx hf hfails

/-- The picture is saved as the file its message names. -/
theorem paths_generated_picture : ∃ c, PathsGenerated c ∧
    ∃ e ∈ c.history, e.act.op.path = some (bytes "files/" ++ Example.fileid) := by
  obtain ⟨c, hr, hpath⟩ := reachable_of_run Example.SHA256 Example.forwarded
    (fun c => c.history.any fun e => e.act.op.path = some (bytes "files/" ++ Example.fileid)) (by decide +kernel)
  obtain ⟨e, he, hpath⟩ := List.any_eq_true.mp hpath
  exact ⟨c, paths_generated hr, e, he, of_decide_eq_true hpath⟩

end NetChat
