import Jkv.Core.KeyedTable
import Jkv.Common.Config

/-!
# Parsing the members string

`Peer::InitGroupMembers` with the library functions it rests on.  The members string is
`host1,peer1,ip1,port1|host2,peer2,ip2,port2|...`.

* `boostSplit` — `boost::split` with `is_any_of` of one character and no token compression: it cuts
  at every separator and keeps empty fields; the empty string has one, empty, field.
* `atoi` — `strtol` to base ten, clamped to `long`, and then narrowed to `int`, which is what the C
  library does with numerals that do not fit.
-/

namespace Jkv

/-- `boost::split(strs, s, boost::is_any_of(sep))`. -/
def boostSplit (sep : Char) (s : StdString) : List StdString := s.splitOn sep

/-- `isspace` in the C locale. -/
def isSpace (c : Char) : Bool :=
  c = ' ' || c = '\t' || c = '\n' || c = '\r' || c = '\x0b' || c = '\x0c'

/-- The value of a run of decimal digits, the first one the most significant. -/
def digitsValue (ds : List Char) : ℕ := ds.foldl (fun n d => 10 * n + (d.toNat - '0'.toNat)) 0

/-- `strtol(s, NULL, 10)`, before clamping: white space, a sign, and the digits that follow. -/
def strtol (s : StdString) : ℤ :=
  match s.dropWhile isSpace with
  | '-' :: cs => -(digitsValue (cs.takeWhile Char.isDigit) : ℤ)
  | '+' :: cs => digitsValue (cs.takeWhile Char.isDigit)
  | cs => digitsValue (cs.takeWhile Char.isDigit)

/-- Two's complement reading of an integer in `w` bits. -/
def wrapSigned (w : ℕ) (n : ℤ) : ℤ := (n + 2 ^ (w - 1)) % 2 ^ w - 2 ^ (w - 1)

/-- `atoi(s)`. -/
def atoi (s : StdString) : ℤ :=
  wrapSigned 32 (max (-2 ^ 63) (min (2 ^ 63 - 1) (strtol s)))

/-- Conversion of an `int` to an unsigned type of `w` bits. -/
def toUnsigned (w : ℕ) (n : ℤ) : ℕ := (n % 2 ^ w).toNat

/-- The body of the loop of `InitGroupMembers`: one part of the string into the table. -/
def addGroupMember (peers : PeerTable) (str : StdString) : Except Fatal PeerTable :=
  match boostSplit ',' str with
  | [host, peer, ip, port] =>
      let hostId := toUnsigned 64 (atoi host)
      if hostId ∈ peers then .error .sameHost
      else
        let groupMember : GroupMember :=
          ⟨hostId, toUnsigned 64 (atoi peer), ip, toUnsigned 16 (atoi port)⟩
        .ok (peers.insert groupMember.hostId groupMember)
  | _ => .error .invalidMember

/-- `Peer::InitGroupMembers`, from the empty table a peer is constructed with. -/
def initGroupMembers (members : StdString) : Except Fatal PeerTable :=
  let strs := boostSplit '|' members
  if strs.isEmpty then .error .invalidMembers
  else strs.foldlM addGroupMember ∅

/-- Every row of the table stands under its own host id. -/
def KeyedByHost (peers : PeerTable) : Prop :=
  ∀ host member, peers.lookup host = some member → member.hostId = host

/-! ## What the loop comes to -/

/-- What one part of the string says, whatever the table has. -/
def readMember (str : StdString) : Except Fatal GroupMember :=
  match boostSplit ',' str with
  | [host, peer, ip, port] =>
      .ok ⟨toUnsigned 64 (atoi host), toUnsigned 64 (atoi peer), ip, toUnsigned 16 (atoi port)⟩
  | _ => .error .invalidMember

lemma readMember_eq_ok {str : StdString} {member : GroupMember} :
    readMember str = .ok member ↔ ∃ host peer ip port,
      boostSplit ',' str = [host, peer, ip, port] ∧ member =
        ⟨toUnsigned 64 (atoi host), toUnsigned 64 (atoi peer), ip, toUnsigned 16 (atoi port)⟩ := by
  constructor
  · intro h
    rw [readMember] at h
    split at h
    · next host peer ip port hsplit =>
        cases h
        exact ⟨host, peer, ip, port, hsplit, rfl⟩
    · cases h
  · rintro ⟨host, peer, ip, port, hsplit, rfl⟩
    simp [readMember, hsplit]

/-- The loop reads a part and puts it under its host id, if that is free. -/
lemma addGroupMember_eq : addGroupMember = addRow readMember GroupMember.hostId .sameHost := by
  funext peers str
  rw [addGroupMember, addRow, readMember]
  split <;> rfl

/-- The check for an empty list never fires: a split has at least one part. -/
lemma initGroupMembers_eq (members : StdString) : initGroupMembers members
    = (boostSplit '|' members).foldlM (addRow readMember GroupMember.hostId .sameHost) ∅ := by
  have hne : boostSplit '|' members ≠ [] := List.splitOn_ne_nil _ _
  rw [initGroupMembers]
  rw [if_neg (by simpa using hne), addGroupMember_eq]

/-- **A members string is accepted** when every part has four fields and no two parts have one host
id; the table then has the rows of the parts and no others. -/
theorem initGroupMembers_eq_ok {members : StdString} {peers : PeerTable} :
    initGroupMembers members = .ok peers ↔ ∃ rows,
      List.Forall₂ (fun part row => readMember part = .ok row) (boostSplit '|' members) rows ∧
        (rows.map GroupMember.hostId).Nodup ∧ HasRows GroupMember.hostId peers rows := by
  rw [initGroupMembers_eq, foldlM_addRow_eq_ok]

section

variable {members : StdString} {peers : PeerTable} (h : initGroupMembers members = .ok peers)

include h

lemma row_of_part {part : StdString} (hpart : part ∈ boostSplit '|' members) : ∃ member,
    readMember part = .ok member ∧ peers.lookup member.hostId = some member := by
  obtain ⟨rows, hread, -, hrows⟩ := initGroupMembers_eq_ok.mp h
  obtain ⟨member, hmember, hpartread⟩ := exists_row hread hpart
  exact ⟨member, hpartread, (hrows _ _).mpr ⟨hmember, rfl⟩⟩

lemma part_of_row {host : HostId} {member : GroupMember}
    (hlookup : peers.lookup host = some member) :
    member.hostId = host ∧ ∃ part ∈ boostSplit '|' members, readMember part = .ok member := by
  obtain ⟨rows, hread, -, hrows⟩ := initGroupMembers_eq_ok.mp h
  obtain ⟨hmember, hhost⟩ := (hrows host member).mp hlookup
  exact ⟨hhost, (mem_rows_iff hread member).mp hmember⟩

/-- What the sender finds under `b` is addressed to host `b`. -/
theorem initGroupMembers_keyed : KeyedByHost peers := by
  intro host member hlookup
  exact (part_of_row h hlookup).1

end

example : initGroupMembers "1,1,a,10000|2,1,b,10001".toList
    = .ok ((Finmap.singleton 1 ⟨1, 1, "a".toList, 10000⟩).insert 2 ⟨2, 1, "b".toList, 10001⟩) := by
  decide

end Jkv
