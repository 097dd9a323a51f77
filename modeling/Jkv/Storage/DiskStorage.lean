import Mathlib.Data.Finmap
import Jkv.Common.Fatal

/-!
# `storage/disk_storage.cc`

leveldb is a finite map from byte strings to byte strings; `Get` reports `NotFound` for an absent
key and every other operation succeeds.  `DiskStorage` wraps it and ends the process on any status
that is not ok, so an absent key is fatal in the same way a broken disk would be.
-/

namespace Jkv

/-- The contents of a leveldb database. -/
abbrev KvDb := Finmap fun _ : Bytes => Bytes

/-- `leveldb::Status`, as far as a finite map returns it. -/
inductive Status
  | ok
  | notFound
  deriving DecidableEq

/-- `Status::ToString`. -/
def Status.toText : Status → String
  | ok => "OK"
  | notFound => "NotFound: "

namespace LevelDb

/-- `db_->Get(ReadOptions(), key, &val)`. -/
def get (db : KvDb) (key : Bytes) : Status × Bytes :=
  match db.lookup key with
  | some val => (.ok, val)
  | none => (.notFound, [])

/-- `db_->Put(WriteOptions(), key, val)`. -/
def put (db : KvDb) (key val : Bytes) : Status × KvDb := (.ok, db.insert key val)

/-- `db_->Delete(WriteOptions(), key)`. -/
def delete (db : KvDb) (key : Bytes) : Status × KvDb := (.ok, db.erase key)

end LevelDb

namespace DiskStorage

/-- `DiskStorage::Get`. -/
def get (db : KvDb) (key : Bytes) : Except Fatal Bytes :=
  let r := LevelDb.get db key
  if r.1 ≠ .ok then .error (.dbGet r.1.toText) else .ok r.2

/-- `DiskStorage::Put`. -/
def put (db : KvDb) (key val : Bytes) : Except Fatal KvDb :=
  let r := LevelDb.put db key val
  if r.1 ≠ .ok then .error (.dbPut r.1.toText) else .ok r.2

/-- `DiskStorage::Del`. -/
def del (db : KvDb) (key : Bytes) : Except Fatal KvDb :=
  let r := LevelDb.delete db key
  if r.1 ≠ .ok then .error (.dbDel r.1.toText) else .ok r.2

lemma get_of_lookup {db : KvDb} {key val : Bytes} (h : db.lookup key = some val) :
    get db key = .ok val := by
  simp [get, LevelDb.get, h]

lemma get_of_absent {db : KvDb} {key : Bytes} (h : db.lookup key = none) :
    get db key = .error (.dbGet "NotFound: ") := by
  simp [get, LevelDb.get, h, Status.toText]

@[simp] lemma put_eq (db : KvDb) (key val : Bytes) : put db key val = .ok (db.insert key val) := by
  simp [put, LevelDb.put]

@[simp] lemma del_eq (db : KvDb) (key : Bytes) : del db key = .ok (db.erase key) := by
  simp [del, LevelDb.delete]

end DiskStorage

end Jkv
