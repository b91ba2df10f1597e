/-
A process that starts on what earlier ones left. `main` opens the database
file, whose missing tables `checkAndCreateTables` creates; the files under the
prefix directory are there; the pools are empty and no client is connected.

A process may end at any point: `CLOG(FATAL)` and an exception nobody catches
abort it between any two steps of its threads. What a statement wrote stays;
of a file that was being written some part may be there. `Started` are the
states a process may so start in, after any number of earlier ones.
-/
import NetChat.Frames

namespace NetChat

open Interleave

/-- The tables of a database file that the server uses, each there or not. -/
structure DbFile where
  users : Option (List UserRow)
  messages : Option (List MessageRow)
  files : Option (List FileRow)

/-- A file that does not exist yet. -/
def DbFile.absent : DbFile := ⟨none, none, none⟩

/-- `DataAccess::checkAndCreateTables` -/
def DbFile.checkAndCreateTables (file : DbFile) : DbFile where
  users := file.users <|> some []
  messages := file.messages <|> some []
  files := file.files <|> some []

/-- The constructor of `DataAccess`: a new connection, which has inserted nothing. -/
def DataAccess.open_ (file : DbFile) : DataAccess where
  users := file.checkAndCreateTables.users.getD []
  messages := file.checkAndCreateTables.messages.getD []
  files := file.checkAndCreateTables.files.getD []
  lastInsertRowid := 0

/-- The file behind a connection. -/
def DataAccess.file (db : DataAccess) : DbFile := ⟨some db.users, some db.messages, some db.files⟩

/-- Tables that are there are kept as they are. -/
theorem DataAccess.open_file (db : DataAccess) : DataAccess.open_ db.file = { db with lastInsertRowid := 0 } := rfl

/-- The state in which a process starts. -/
def State.boot (file : DbFile) (disk : Bytes → Option Bytes) : State :=
  { State.initial with db := .open_ file, disk }

theorem State.boot_absent : State.boot .absent (fun _ => none) = State.initial := rfl

variable {SHA256 : Bytes → Bytes} {s : State} {c c' : Config}

/-- What a process may leave on disk: of a file that some thread was about to save, a
part may be there. -/
def LeavesDisk (SHA256 : Bytes → Bytes) (c : Config) (disk : Bytes → Option Bytes) : Prop :=
  ∀ f, disk f = c.state.disk f ∨ ∃ t content n,
    ((server SHA256).body t).Issues (c.threads t).log (.saveToDisk f content) ∧ disk f = some (content.take n)

/-- **The states a process starts in**: the first has neither database nor files, the
others have what the one before left, wherever it ended. -/
inductive Started (SHA256 : Bytes → Bytes) : State → Prop
  | first : Started SHA256 (.boot .absent fun _ => none)
  | again {s : State} {c : Config} {disk : Bytes → Option Bytes} :
      Started SHA256 s → (server SHA256).Reachable s c → LeavesDisk SHA256 c disk →
      Started SHA256 (.boot c.state.db.file disk)

/-- A configuration of a server that may have been started again any number of times. -/
def Running (SHA256 : Bytes → Bytes) (c : Config) : Prop := ∃ s, Started SHA256 s ∧ (server SHA256).Reachable s c

theorem Running.of_reachable (h : Reachable SHA256 c) : Running SHA256 c := ⟨_, .first, h⟩

/-- **The invariant rule over all processes**: what holds in the first state, is kept by
every step and holds again in a process that starts on what is left. -/
theorem Running.invariant (I : Config → Prop) (hfirst : I ((server SHA256).init State.initial))
    (hstep : ∀ s c e c', Started SHA256 s → (server SHA256).Reachable s c → I c → (server SHA256).Step c e c' → I c')
    (hagain : ∀ c disk, Running SHA256 c → I c → LeavesDisk SHA256 c disk →
      I ((server SHA256).init (.boot c.state.db.file disk)))
    (h : Running SHA256 c) : I c := by
  obtain ⟨s, hs, hr⟩ := h
  induction hs generalizing c with
  | first => exact hr.invariant I hfirst fun c e c' hr hi hstep' _ => hstep _ c e c' .first hr hi hstep'
  | @again s₁ c₁ disk hs₁ hr₁ hdisk ih =>
    refine hr.invariant I (hagain c₁ disk ⟨s₁, hs₁, hr₁⟩ (ih hr₁) hdisk) fun c e c' hr hi hstep' _ => ?_
    exact hstep _ c e c' (.again hs₁ hr₁ hdisk) hr hi hstep'

/-- A process that runs `sched`, and one started after it on what it left, that runs
`again`, as computed. -/
theorem restarted_of_runs (SHA256 : Bytes → Bytes) (sched again : Schedule) (P : Config → Config → Prop)
    [∀ c c', Decidable (P c c')]
    (h : ((server SHA256).execAll (fun _ _ => true) ((server SHA256).init State.initial) sched).any fun c =>
      ((server SHA256).execAll (fun _ _ => true) ((server SHA256).init (.boot c.state.db.file c.state.disk)) again).any
        fun c' => decide (P c c')) :
    ∃ c c', Reachable SHA256 c ∧ (server SHA256).Reachable (.boot c.state.db.file c.state.disk) c' ∧ P c c' := by
  obtain ⟨c, hc, h⟩ := (Option.any_eq_true _ _).mp h
  obtain ⟨c', hc', hP⟩ := (Option.any_eq_true _ _).mp h
  exact ⟨c, c', .execAll (fun _ _ _ _ _ _ _ => trivial) hc, .execAll (fun _ _ _ _ _ _ _ => trivial) hc',
    of_decide_eq_true hP⟩

/-- What a process that ends leaves, if no file is being written. -/
theorem LeavesDisk.settled : LeavesDisk SHA256 c c.state.disk := fun _ => .inl rfl

end NetChat
