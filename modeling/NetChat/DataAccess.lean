/-
The SQLite tables behind `DataAccess` and what each statement of
`db_access.cpp` does to them. Rows are in rowid order and none is ever
deleted, so a table scan visits them in insertion order and AUTOINCREMENT
gives the next row the number of rows plus one. Foreign keys are not
enforced: the code never turns them on.

A statement may also fail, which SQLiteCpp reports by throwing; that is a
result of its own (`Sql`), not part of these functions.
-/
import NetChat.Messages

namespace NetChat

structure User where
  id : Int32
  username : Bytes
  password : Bytes
  deriving DecidableEq

/-- `User::User(int, string_view, string_view)`: both strings are taken
through `data()`. -/
def User.new (id : Int32) (username password : Bytes) : User where
  id := id
  username := cstr username
  password := cstr password

/-- `file::FileStorage` -/
structure FileStorage where
  id : Bytes
  name : Bytes
  hash : Bytes
  deriving DecidableEq

/-! ## Tables -/

structure UserRow where
  user_id : Nat
  username : Bytes
  password : Bytes
  deriving DecidableEq

/-- The column `file_id` is written by no statement. -/
structure MessageRow where
  message_id : Nat
  sender_id : Int32
  receiver_id : Int32
  type : MessageType
  internal_id : Int32
  content : Bytes
  timestamp : Int32
  deriving DecidableEq

/-- `filename` and `hash` are NULL until the file is uploaded. -/
structure FileRow where
  file_id : Bytes
  filename : Option Bytes
  hash : Option Bytes
  deriving DecidableEq

/-- The connection `db_`: the tables and `sqlite3_last_insert_rowid`. -/
structure DataAccess where
  users : List UserRow
  messages : List MessageRow
  files : List FileRow
  lastInsertRowid : Nat

/-- The tables as `checkAndCreateTables` leaves them. -/
def DataAccess.empty : DataAccess := ⟨[], [], [], 0⟩

/-- `Column::getInt` of an INTEGER: its low 32 bits. -/
def getInt (n : Nat) : Int32 := Int32.ofNat n

/-- `Column::getString`, which gives the empty string for NULL. -/
def getString (v : Option Bytes) : Bytes := v.getD []

def UserRow.toUser (r : UserRow) : User := User.new (getInt r.user_id) r.username r.password

def MessageRow.toMessage (r : MessageRow) : Message where
  message := { from_ := r.sender_id, to_ := r.receiver_id, type := r.type, content := r.content }
  id := getInt r.message_id
  timestamp := r.timestamp
  internalid := r.internal_id

def FileRow.toFileStorage (r : FileRow) : FileStorage where
  id := r.file_id
  name := getString r.filename
  hash := getString r.hash

namespace DataAccess

/-! ## Queries -/

def getUser (db : DataAccess) (username : Bytes) : Option User :=
  (db.users.find? fun r => r.username == cstr username).map UserRow.toUser

/-- `getUser(const int &id)` -/
def getUserById (db : DataAccess) (id : Int32) : Option User :=
  (db.users.find? fun r => (r.user_id : Int) == id.toInt).map UserRow.toUser

def getAllUsers (db : DataAccess) : List User := db.users.map UserRow.toUser

def getMessage (db : DataAccess) (sender_id receiver_id internal_id : Int32) : Option Message :=
  (db.messages.find? fun r =>
    r.sender_id == sender_id && r.receiver_id == receiver_id && r.internal_id == internal_id).map
      MessageRow.toMessage

def getAllMessages (db : DataAccess) (sender_id receiver_id : Int32) : List Message :=
  (db.messages.filter fun r => r.sender_id == sender_id && r.receiver_id == receiver_id).map
    MessageRow.toMessage

def getFile (db : DataAccess) (uuid : Bytes) : Option FileStorage :=
  (db.files.find? fun r => r.file_id == cstr uuid).map FileRow.toFileStorage

/-! ## Inserts and the update -/

/-- `INSERT INTO users`: refused when the username, which is UNIQUE, is taken. -/
def insertUser (db : DataAccess) (username password : Bytes) : Option DataAccess :=
  if db.users.any fun r => r.username == username then none
  else some { db with
    users := db.users ++ [⟨db.users.length + 1, username, password⟩]
    lastInsertRowid := db.users.length + 1 }

/-- The row that stores `m`, with the values `createMsg` binds. -/
def toRow (m : Message) (message_id : Nat) : MessageRow where
  message_id := message_id
  sender_id := m.message.from_
  receiver_id := m.message.to_
  type := m.message.type
  internal_id := m.internalid
  content := m.message.content
  timestamp := m.timestamp

/-- `INSERT INTO messages` -/
def insertMessage (db : DataAccess) (m : Message) : DataAccess :=
  { db with
    messages := db.messages ++ [toRow m (db.messages.length + 1)]
    lastInsertRowid := db.messages.length + 1 }

/-- `INSERT INTO files`: refused when the id, the primary key, is taken. -/
def insertFile (db : DataAccess) (uuid : Bytes) : Option DataAccess :=
  if db.files.any fun r => r.file_id == uuid then none
  else some { db with
    files := db.files ++ [⟨uuid, none, none⟩]
    lastInsertRowid := db.files.length + 1 }

/-- `UPDATE files`: the number of rows changed, which is what `exec` returns,
and the tables after it. -/
def updateFile (db : DataAccess) (f : FileStorage) : Nat × DataAccess :=
  ((db.files.filter fun r => r.file_id == f.id).length,
    { db with files := db.files.map fun r =>
        if r.file_id == f.id then { r with filename := some f.name, hash := some f.hash } else r })

end DataAccess

end NetChat
