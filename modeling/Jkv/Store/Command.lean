import Jkv.Storage.DiskStorage

/-!
# The sequential store

What the replicated store is for, without raft, queues or clients: commands that are applied to one
database one after the other.  `Command.apply` is total: a `get` changes nothing whether its key is
there or not.  `lastWrite` says what the history of a key means for it, without running anything,
and `lookup_applyAll` that the database agrees.  So a log can be replayed on top of a part of itself
(`applyAll_applyAll_take`).
-/

namespace Jkv

/-- A client's command, or an entry that asks for nothing. -/
inductive Command
  | noop
  | get (key : Bytes)
  | put (key val : Bytes)
  | del (key : Bytes)
  deriving DecidableEq

namespace Command

/-- The reference semantics. -/
def apply (db : KvDb) : Command → KvDb
  | noop => db
  | get _ => db
  | put key val => db.insert key val
  | del key => db.erase key

/-- The commands of a log, one after the other. -/
def applyAll (db : KvDb) (cmds : List Command) : KvDb := cmds.foldl apply db

@[simp] lemma applyAll_nil (db : KvDb) : applyAll db [] = db := rfl

@[simp] lemma applyAll_append (db : KvDb) (cmds cmds' : List Command) :
    applyAll db (cmds ++ cmds') = applyAll (applyAll db cmds) cmds' := List.foldl_append ..

@[simp] lemma applyAll_singleton (db : KvDb) (cmd : Command) : applyAll db [cmd] = cmd.apply db :=
  rfl

/-- What a command says about a key: nothing, or the value it leaves there, if any. -/
def write (key : Bytes) : Command → Option (Option Bytes)
  | noop => none
  | get _ => none
  | put key' val => if key' = key then some (some val) else none
  | del key' => if key' = key then some none else none

/-- The last thing a history says about a key. -/
def lastWrite (key : Bytes) (cmds : List Command) : Option (Option Bytes) :=
  cmds.reverse.findSome? (write key)

lemma lookup_apply (db : KvDb) (cmd : Command) (key : Bytes) :
    (cmd.apply db).lookup key = (cmd.write key).getD (db.lookup key) := by
  cases cmd with
  | noop => rfl
  | get _ => rfl
  | put key' val =>
      by_cases h : key' = key
      · subst h; simp [apply, write]
      · simp [apply, write, h, Finmap.lookup_insert_of_ne _ (Ne.symm h)]
  | del key' =>
      by_cases h : key' = key
      · subst h; simp [apply, write]
      · simp [apply, write, h, Finmap.lookup_erase_ne (Ne.symm h)]

/-- **A key reads as its history left it.** -/
theorem lookup_applyAll (db : KvDb) (cmds : List Command) (key : Bytes) :
    (applyAll db cmds).lookup key = (lastWrite key cmds).getD (db.lookup key) := by
  induction cmds using List.reverseRecOn with
  | nil => rfl
  | append_singleton cmds cmd ih =>
      rw [applyAll_append, applyAll_singleton, lookup_apply, ih, lastWrite, lastWrite,
        List.reverse_append, List.reverse_singleton, List.singleton_append, List.findSome?_cons]
      cases cmd.write key <;> rfl

/-- A history that does not write a key has no part that does. -/
lemma lastWrite_take_of_none {key : Bytes} {cmds : List Command} (h : lastWrite key cmds = none)
    (n : ℕ) : lastWrite key (cmds.take n) = none := by
  rw [lastWrite, List.findSome?_eq_none_iff] at h ⊢
  intro cmd hcmd
  rw [List.mem_reverse] at hcmd
  exact h cmd (List.mem_reverse.mpr (List.mem_of_mem_take hcmd))

/-- **Replaying a log absorbs what a part of it has left.** -/
theorem applyAll_applyAll_take (db : KvDb) (cmds : List Command) (n : ℕ) :
    applyAll (applyAll db (cmds.take n)) cmds = applyAll db cmds := by
  refine Finmap.ext_lookup ?_
  intro key
  rw [lookup_applyAll, lookup_applyAll db cmds]
  cases h : lastWrite key cmds with
  | some val => rfl
  | none => rw [lookup_applyAll, lastWrite_take_of_none h]; rfl

/-- **A log brings two databases together** when it writes every key on which they differ. -/
theorem applyAll_eq_iff {db db' : KvDb} {cmds : List Command} :
    applyAll db cmds = applyAll db' cmds ↔
      ∀ key, db.lookup key ≠ db'.lookup key → lastWrite key cmds ≠ none := by
  constructor
  · intro heq key hne hnone
    have hlookup := congrArg (Finmap.lookup key) heq
    rw [lookup_applyAll, lookup_applyAll, hnone] at hlookup
    exact hne hlookup
  · intro hwrites
    refine Finmap.ext_lookup ?_
    intro key
    rw [lookup_applyAll, lookup_applyAll]
    by_cases hsame : db.lookup key = db'.lookup key
    · rw [hsame]
    · obtain ⟨val, hval⟩ := Option.ne_none_iff_exists'.mp (hwrites key hsame)
      rw [hval]
      rfl

end Command

end Jkv
