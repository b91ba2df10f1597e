/-
How the keys and values of a statement reach SQLite. The `getUser`,
`getGroup` and `getFile` that take a string bind it through `data()`, so up
to its first NUL; so does the `updateFile` that takes three strings, while
the one that takes a `FileStorage` binds its `std::string`s whole, as every
INSERT does.

`keysWhole_iff`: exactly when that makes no difference. `byWholeKey_iff` is
the part about lookups, for any table, `updatesAlike_iff` the part about the
two updates.
-/
import NetChat.DataAccess

namespace NetChat

/-! ## Groups and the second update -/

/-- `Group::Group(int, string_view)`, which keeps the name whole. -/
structure Group where
  id : Int32
  name : Bytes
  deriving DecidableEq

structure GroupRow where
  group_id : Nat
  group_name : Bytes
  deriving DecidableEq

def GroupRow.toGroup (r : GroupRow) : Group := ⟨getInt r.group_id, r.group_name⟩

/-- `DataAccess::getGroup(std::string_view)`, of the table `groups`, which the
server never writes. -/
def getGroup (groups : List GroupRow) (name : Bytes) : Option Group :=
  (groups.find? fun r => r.group_name == cstr name).map GroupRow.toGroup

/-- The `UPDATE files` of the `updateFile` that takes three string views. -/
def DataAccess.updateFileFields (db : DataAccess) (uuid filename hash : Bytes) : Nat × DataAccess :=
  db.updateFile ⟨cstr uuid, cstr filename, cstr hash⟩

/-! ## Lookups -/

variable {α β : Type}

/-- The row `SELECT … WHERE key = ?` stops at when `k` is bound through
`data()`. -/
def select (key : α → Bytes) (rows : List α) (k : Bytes) : Option α :=
  rows.find? fun r => key r == cstr k

/-- The lookup of `k` returned the value of a row only where the row's key is
`k`, and returned one where there is such a row. -/
structure ByWholeKey (key : α → Bytes) (value : α → β) (rows : List α) (k : Bytes) (result : Option β) :
    Prop where
  returned : result = (select key rows k).map value
  only : ∀ r, select key rows k = some r → key r = k
  every : ∀ r ∈ rows, key r = k → result.isSome

/-- No NUL in the key cuts it short, or no row has the key or what is left of
it. -/
def BoundWhole (key : α → Bytes) (rows : List α) (k : Bytes) : Prop :=
  cstr k = k ∨ ∀ r ∈ rows, key r ≠ k ∧ key r ≠ cstr k

theorem select_key {key : α → Bytes} {rows : List α} {k : Bytes} {r : α} (h : select key rows k = some r) :
    r ∈ rows ∧ key r = cstr k := by
  have hk := List.find?_some h
  simp only [beq_iff_eq] at hk
  exact ⟨List.mem_of_find?_eq_some h, hk⟩

theorem select_isSome {key : α → Bytes} {rows : List α} {k : Bytes} {r : α} (hr : r ∈ rows)
    (hk : key r = cstr k) : (select key rows k).isSome := by
  rw [select, List.find?_isSome]
  exact ⟨r, hr, by simp [hk]⟩

/-- A lookup goes by the whole key exactly when the key is bound whole. -/
theorem byWholeKey_iff (key : α → Bytes) (value : α → β) (rows : List α) (k : Bytes) :
    ByWholeKey key value rows k ((select key rows k).map value) ↔ BoundWhole key rows k := by
  constructor
  · intro ⟨_, only, every⟩
    by_cases hc : cstr k = k
    · exact .inl hc
    · refine .inr fun r hr => ⟨?_, ?_⟩
      · -- A row with the whole key is returned, though its key is not what was looked for.
        intro hk
        have hs := every r hr hk
        rw [Option.isSome_map] at hs
        obtain ⟨r', hr'⟩ := Option.isSome_iff_exists.mp hs
        exact hc ((select_key hr').2.symm.trans (only r' hr'))
      · -- A row with the shortened key is found, so what is found has another key.
        intro hk
        obtain ⟨r', hr'⟩ := Option.isSome_iff_exists.mp (select_isSome hr hk)
        exact hc ((select_key hr').2.symm.trans (only r' hr'))
  · rintro (hc | hno)
    · refine ⟨rfl, ?_, ?_⟩
      · intro r hr
        exact (select_key hr).2.trans hc
      · intro r hr hk
        rw [Option.isSome_map]
        exact select_isSome hr (hk.trans hc.symm)
    · refine ⟨rfl, ?_, ?_⟩
      · intro r hr
        obtain ⟨hm, hk⟩ := select_key hr
        exact absurd hk (hno r hm).2
      · intro r hr hk
        exact absurd hk (hno r hr).1

/-! ## Updates -/

/-- The two `updateFile` of one file lead to the same files table and the same
result. -/
def UpdatesAlike (db : DataAccess) (f : FileStorage) : Prop :=
  (db.updateFile f).2.files = (db.updateFileFields f.id f.name f.hash).2.files ∧
    ((db.updateFile f).1 != 0) = ((db.updateFileFields f.id f.name f.hash).1 != 0)

/-- The row already holds what an update with this name and hash writes. -/
def FileRow.Holds (r : FileRow) (name hash : Bytes) : Prop := r.filename = some name ∧ r.hash = some hash

/-- Neither the id nor what is left of it up to a NUL has a row, or no NUL cuts
any of the three strings short, or both ids have rows and these already hold
what the updates write. -/
def FieldsBoundWhole (files : List FileRow) (f : FileStorage) : Prop :=
  (∀ r ∈ files, r.file_id ≠ f.id ∧ r.file_id ≠ cstr f.id) ∨
  (cstr f.id = f.id ∧ cstr f.name = f.name ∧ cstr f.hash = f.hash) ∨
  ((∃ r ∈ files, r.file_id = f.id) ∧ (∃ r ∈ files, r.file_id = cstr f.id) ∧
    (∀ r ∈ files, r.file_id = f.id → r.Holds f.name f.hash) ∧
    ∀ r ∈ files, r.file_id = cstr f.id → r.Holds (cstr f.name) (cstr f.hash))

/-- What `UPDATE files` makes of one row. -/
def FileRow.set (f : FileStorage) (r : FileRow) : FileRow :=
  if r.file_id == f.id then { r with filename := some f.name, hash := some f.hash } else r

theorem FileRow.set_self {f : FileStorage} {r : FileRow} (h : r.file_id = f.id) :
    r.set f = { r with filename := some f.name, hash := some f.hash } := if_pos (by simp [h])

theorem FileRow.set_other {f : FileStorage} {r : FileRow} (h : r.file_id ≠ f.id) : r.set f = r :=
  if_neg (by simp [h])

theorem FileRow.set_holds {f : FileStorage} {r : FileRow} (h : r.file_id = f.id) :
    r.set f = r ↔ r.Holds f.name f.hash := by
  rw [set_self h]
  obtain ⟨id, filename, hash⟩ := r
  simp only [mk.injEq, true_and, Holds]
  constructor <;> rintro ⟨rfl, rfl⟩ <;> exact ⟨rfl, rfl⟩

theorem updated_iff (db : DataAccess) (f : FileStorage) :
    ((db.updateFile f).1 != 0) = true ↔ ∃ r ∈ db.files, r.file_id = f.id := by
  simp [DataAccess.updateFile]

theorem updateFile_files (db : DataAccess) (f : FileStorage) :
    (db.updateFile f).2.files = db.files.map (FileRow.set f) := rfl

/-- The two updates are the same row by row, and find a row or find none
together. -/
theorem updatesAlike_rows (db : DataAccess) (f : FileStorage) :
    UpdatesAlike db f ↔
      (∀ r ∈ db.files, r.set f = r.set ⟨cstr f.id, cstr f.name, cstr f.hash⟩) ∧
        ((∃ r ∈ db.files, r.file_id = f.id) ↔ ∃ r ∈ db.files, r.file_id = cstr f.id) := by
  rw [UpdatesAlike, DataAccess.updateFileFields, updateFile_files, updateFile_files, List.map_inj_left,
    Bool.eq_iff_iff, updated_iff, updated_iff]

theorem updatesAlike_iff (db : DataAccess) (f : FileStorage) :
    UpdatesAlike db f ↔ FieldsBoundWhole db.files f := by
  rw [updatesAlike_rows]
  constructor
  · intro ⟨hrows, hfound⟩
    by_cases hany : ∃ r ∈ db.files, r.file_id = f.id
    · right
      obtain ⟨r, hr, hid⟩ := hany
      by_cases hc : cstr f.id = f.id
      · left
        have hset := hrows r hr
        rw [FileRow.set_self hid, FileRow.set_self (hid.trans hc.symm)] at hset
        simp only [FileRow.mk.injEq, Option.some.injEq, true_and] at hset
        exact ⟨hc, hset.1.symm, hset.2.symm⟩
      · right
        refine ⟨⟨r, hr, hid⟩, hfound.mp ⟨r, hr, hid⟩, ?_, ?_⟩
        · intro r hr hid
          have hset := hrows r hr
          rw [FileRow.set_other (f := ⟨cstr f.id, _, _⟩) fun h => hc (h.symm.trans hid)] at hset
          exact (FileRow.set_holds hid).mp hset
        · intro r hr hid
          have hset := hrows r hr
          rw [FileRow.set_other (f := f) fun h => hc (hid.symm.trans h)] at hset
          exact (FileRow.set_holds (f := ⟨cstr f.id, cstr f.name, cstr f.hash⟩) hid).mp hset.symm
    · left
      intro r hr
      exact ⟨fun h => hany ⟨r, hr, h⟩, fun h => hany (hfound.mpr ⟨r, hr, h⟩)⟩
  · rintro (hno | ⟨hid, hname, hhash⟩ | ⟨hw, hcut, hwh, hch⟩)
    · refine ⟨?_, ?_⟩
      · intro r hr
        rw [FileRow.set_other (hno r hr).1, FileRow.set_other (hno r hr).2]
      · constructor
        · rintro ⟨r, hr, h⟩
          exact absurd h (hno r hr).1
        · rintro ⟨r, hr, h⟩
          exact absurd h (hno r hr).2
    · rw [hid, hname, hhash]
      exact ⟨fun _ _ => rfl, Iff.rfl⟩
    · refine ⟨?_, fun _ => hcut, fun _ => hw⟩
      intro r hr
      have h₁ : r.set f = r := by
        by_cases h : r.file_id = f.id
        · exact (FileRow.set_holds h).mpr (hwh r hr h)
        · exact FileRow.set_other h
      have h₂ : r.set ⟨cstr f.id, cstr f.name, cstr f.hash⟩ = r := by
        by_cases h : r.file_id = cstr f.id
        · exact (FileRow.set_holds (f := ⟨cstr f.id, cstr f.name, cstr f.hash⟩) h).mpr (hch r hr h)
        · exact FileRow.set_other h
      rw [h₁, h₂]

/-! ## All of them -/

/-- Keys and values are compared and stored whole: the three lookups of `k` go
by the whole key and the two updates of `f` are one. -/
structure KeysWhole (db : DataAccess) (groups : List GroupRow) (k : Bytes) (f : FileStorage) : Prop where
  getUser : ByWholeKey UserRow.username UserRow.toUser db.users k (db.getUser k)
  getGroup : ByWholeKey GroupRow.group_name GroupRow.toGroup groups k (getGroup groups k)
  getFile : ByWholeKey FileRow.file_id FileRow.toFileStorage db.files k (db.getFile k)
  updateFile : UpdatesAlike db f

/-- **Keys and values are compared and stored whole exactly when no NUL cuts
short one that matters**: one whose whole or shortened form is in the table. -/
theorem keysWhole_iff (db : DataAccess) (groups : List GroupRow) (k : Bytes) (f : FileStorage) :
    KeysWhole db groups k f ↔
      BoundWhole UserRow.username db.users k ∧ BoundWhole GroupRow.group_name groups k ∧
        BoundWhole FileRow.file_id db.files k ∧ FieldsBoundWhole db.files f := by
  have hu := byWholeKey_iff UserRow.username UserRow.toUser db.users k
  have hg := byWholeKey_iff GroupRow.group_name GroupRow.toGroup groups k
  have hf := byWholeKey_iff FileRow.file_id FileRow.toFileStorage db.files k
  constructor
  · intro ⟨getUser, getGroup, getFile, updateFile⟩
    exact ⟨hu.mp getUser, hg.mp getGroup, hf.mp getFile, (updatesAlike_iff db f).mp updateFile⟩
  · intro ⟨users, groups, files, fields⟩
    exact ⟨hu.mpr users, hg.mpr groups, hf.mpr files, (updatesAlike_iff db f).mpr fields⟩

namespace Example

/-- Who asks for `bob\0x` is given the row of `bob`. -/
theorem found_by_half_a_key :
    ¬ KeysWhole ⟨[⟨1, bytes "bob", []⟩], [], [], 1⟩ [] (bytes "bob" ++ [0, 120]) ⟨[], [], []⟩ := by
  intro h
  exact absurd (h.getUser.only ⟨1, bytes "bob", []⟩ (by decide)) (by decide)

end Example

end NetChat
