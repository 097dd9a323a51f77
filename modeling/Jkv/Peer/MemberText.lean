import Mathlib.Data.List.TakeWhile
import Jkv.Peer.Members

/-!
# Numbers in the members string

A members string is written by hand, one for each host.  What is written as `membersText` writes it
is read back (`members_roundTrip`): ids below `2 ^ 31` and ports below `2 ^ 16` come through `atoi`
and the conversion to the type of the field as they are.

Beyond that the numbers are read wrongly and not refused.  `atoi` returns an `int`, of any text at
all, where an id is a `uint64_t` and the flags of the server read it as one.
`storedFaithfully_iff` says for which strings the table has the numbers of the string.
-/

namespace Jkv

/-! ## Decimal numerals -/

/-- A decimal numeral: digits, and at least one. -/
def IsNumeral (s : StdString) : Prop := s ≠ [] ∧ ∀ c ∈ s, c.isDigit

/-- The text is a numeral for this number. -/
def Denotes (s : StdString) (n : ℕ) : Prop := IsNumeral s ∧ digitsValue s = n

/-- The numeral that is written for a number. -/
def decimal (n : ℕ) : StdString := Nat.toDigits 10 n

lemma denotes_decimal (n : ℕ) : Denotes (decimal n) n := by
  refine ⟨⟨Nat.toDigits_ne_nil, ?_⟩, Nat.ofDigitChars_ten_toDigits⟩
  intro c hc
  exact Nat.isDigit_of_mem_toDigits (by omega) (by omega) hc

lemma not_mem_decimal {c : Char} (hc : c.isDigit = false) (n : ℕ) : c ∉ decimal n := by
  intro hmem
  have hdigit := (denotes_decimal n).1.2 c hmem
  rw [hc] at hdigit
  cases hdigit

lemma isSpace_of_isDigit {c : Char} (hc : c.isDigit) : isSpace c = false := by
  by_contra h
  simp only [isSpace, Bool.not_eq_false, Bool.or_eq_true, decide_eq_true_eq] at h
  rcases h with ((((rfl | rfl) | rfl) | rfl) | rfl) | rfl <;> simp at hc

/-- `strtol` reads a numeral to its end. -/
lemma Denotes.strtol {s : StdString} {n : ℕ} (h : Denotes s n) : Jkv.strtol s = n := by
  obtain ⟨⟨hne, hdigits⟩, hvalue⟩ := h
  obtain ⟨c, cs, rfl⟩ := List.exists_cons_of_ne_nil hne
  have hc : c.isDigit := hdigits c List.mem_cons_self
  have hspace : (c :: cs).dropWhile isSpace = c :: cs := by
    rw [List.dropWhile_cons_of_neg (by simp [isSpace_of_isDigit hc])]
  have htake : (c :: cs).takeWhile Char.isDigit = c :: cs := List.takeWhile_eq_self_iff.mpr hdigits
  rw [Jkv.strtol, hspace]
  split
  · next heq => cases heq; simp at hc
  · next heq => cases heq; simp at hc
  · next heq => rw [htake, hvalue]

/-- `atoi` on a numeral. -/
lemma Denotes.atoi {s : StdString} {n : ℕ} (h : Denotes s n) :
    Jkv.atoi s = wrapSigned 32 (min (2 ^ 63 - 1) n) := by
  rw [Jkv.atoi, h.strtol]
  congr 1
  omega

lemma Denotes.id_of_lt {s : StdString} {n : ℕ} (h : Denotes s n) (hn : n < 2 ^ 31) :
    toUnsigned 64 (Jkv.atoi s) = n := by
  rw [h.atoi, toUnsigned, wrapSigned]
  omega

/-- Large numbers are clamped to `LONG_MAX`, of which the narrowing leaves `-1`. -/
lemma Denotes.id_of_ge {s : StdString} {n : ℕ} (h : Denotes s n) (hn : 2 ^ 63 ≤ n) :
    toUnsigned 64 (Jkv.atoi s) = 2 ^ 64 - 1 := by
  rw [h.atoi, toUnsigned, wrapSigned]
  omega

lemma Denotes.port {s : StdString} {n : ℕ} (h : Denotes s n) (hn : n < 2 ^ 16) :
    toUnsigned 16 (Jkv.atoi s) = n := by
  rw [h.atoi, toUnsigned, wrapSigned]
  omega

/-- An id that was an `int` is small, or was negative and is wrapped around. -/
lemma id_of_int (s : StdString) :
    toUnsigned 64 (atoi s) < 2 ^ 31 ∨ 2 ^ 64 - 2 ^ 31 ≤ toUnsigned 64 (atoi s) := by
  rw [atoi, toUnsigned, wrapSigned]
  omega

/-- The ids that survive `int`.  The largest one does so by accident: it is clamped to `LONG_MAX`,
narrowed to `-1` and wrapped around. -/
lemma Denotes.id_eq_iff {s : StdString} {n : ℕ} (h : Denotes s n) :
    toUnsigned 64 (Jkv.atoi s) = n ↔ n < 2 ^ 31 ∨ n = 2 ^ 64 - 1 := by
  constructor
  · intro heq
    rcases id_of_int s with hsmall | hlarge
    · omega
    · have hmax := h.id_of_ge (by omega)
      omega
  · rintro (hn | hn)
    · exact h.id_of_lt hn
    · rw [h.id_of_ge (by omega), hn]

/-! ## What is written is read back -/

/-- One member, `host,peer,ip,port`. -/
def GroupMember.toText (member : GroupMember) : StdString :=
  [','].intercalate [decimal member.hostId, decimal member.peerId, member.ip, decimal member.port]

/-- All members, `host1,peer1,ip1,port1|host2,peer2,ip2,port2|...`. -/
def membersText (members : List GroupMember) : StdString :=
  ['|'].intercalate (members.map GroupMember.toText)

/-- The members that can be written: the numbers fit, and the ip has no separator in it. -/
structure GroupMember.Writable (member : GroupMember) : Prop where
  hostId : member.hostId < 2 ^ 31
  peerId : member.peerId < 2 ^ 31
  port : member.port < 2 ^ 16
  no_comma : ',' ∉ member.ip
  no_bar : '|' ∉ member.ip

namespace GroupMember.Writable

variable {member : GroupMember}

lemma readMember_toText (h : member.Writable) : readMember member.toText = .ok member := by
  have hsplit : boostSplit ',' member.toText
      = [decimal member.hostId, decimal member.peerId, member.ip, decimal member.port] := by
    refine List.splitOn_intercalate ',' ?_ (by simp)
    intro field hfield
    simp only [List.mem_cons, List.not_mem_nil, or_false] at hfield
    rcases hfield with rfl | rfl | rfl | rfl
    · exact not_mem_decimal rfl _
    · exact not_mem_decimal rfl _
    · exact h.no_comma
    · exact not_mem_decimal rfl _
  rw [readMember, hsplit]
  simp [(denotes_decimal _).id_of_lt h.hostId, (denotes_decimal _).id_of_lt h.peerId,
    (denotes_decimal _).port h.port]

lemma no_bar_toText (h : member.Writable) : '|' ∉ member.toText := by
  simp [toText, List.intercalate, not_mem_decimal (c := '|') rfl, h.no_bar]

end GroupMember.Writable

lemma boostSplit_membersText {members : List GroupMember} (hne : members ≠ [])
    (h : ∀ member ∈ members, member.Writable) :
    boostSplit '|' (membersText members) = members.map GroupMember.toText := by
  refine List.splitOn_intercalate '|' ?_ (by simpa using hne)
  intro text htext
  obtain ⟨member, hmember, rfl⟩ := List.mem_map.mp htext
  exact (h member hmember).no_bar_toText

/-- **A members string decodes to what it encodes.**  Of members with distinct host ids the table
has each under its host id and nothing else; if two have one host id, the string is refused. -/
theorem members_roundTrip {members : List GroupMember} (hne : members ≠ [])
    (h : ∀ member ∈ members, member.Writable) :
    ((members.map GroupMember.hostId).Nodup → ∃ peers,
      initGroupMembers (membersText members) = .ok peers ∧
        (∀ host member, peers.lookup host = some member ↔
          member ∈ members ∧ member.hostId = host) ∧
        peers.keys.card = members.length) ∧
    (¬ (members.map GroupMember.hostId).Nodup →
      initGroupMembers (membersText members) = .error .sameHost) := by
  have hread : List.Forall₂ (fun part member => readMember part = .ok member)
      (boostSplit '|' (membersText members)) members := by
    rw [boostSplit_membersText hne h, List.forall₂_map_left_iff, List.forall₂_same]
    intro member hmember
    exact (h member hmember).readMember_toText
  obtain ⟨hdistinct, hshared⟩ := foldlM_addRow_of_read GroupMember.hostId Fatal.sameHost hread
  rw [initGroupMembers_eq]
  refine ⟨?_, hshared⟩
  intro hnodup
  obtain ⟨peers, hloop, hrows⟩ := hdistinct hnodup
  exact ⟨peers, hloop, hrows, hrows.card_keys hnodup⟩

/-- The group of the example scripts. -/
def scriptMembers : List GroupMember :=
  [⟨1, 1, "127.0.0.1".toList, 10000⟩, ⟨2, 1, "127.0.0.1".toList, 10001⟩,
    ⟨3, 1, "127.0.0.1".toList, 10002⟩]

theorem members_roundTrip_scripts :
    membersText scriptMembers
      = "1,1,127.0.0.1,10000|2,1,127.0.0.1,10001|3,1,127.0.0.1,10002".toList ∧
    ∃ peers, initGroupMembers (membersText scriptMembers) = .ok peers ∧
      (∀ host member, peers.lookup host = some member ↔
        member ∈ scriptMembers ∧ member.hostId = host) ∧
      peers.keys.card = 3 := by
  have h : ∀ member ∈ scriptMembers, member.Writable := by
    intro member hmember
    simp only [scriptMembers, List.mem_cons, List.not_mem_nil, or_false] at hmember
    rcases hmember with rfl | rfl | rfl <;> constructor <;> decide
  exact ⟨by decide, (members_roundTrip (by simp [scriptMembers]) h).1 (by decide)⟩

/-! ## What a number is stored as -/

/-- **What is wanted**: in a table that is accepted, every part of the string has a row with the
numbers that the fields of the part denote, which are numbers of the types of the fields. -/
def StoredFaithfully (members : StdString) : Prop :=
  ∀ peers, initGroupMembers members = .ok peers → ∀ part ∈ boostSplit '|' members,
    ∃ host peer ip port, boostSplit ',' part = [host, peer, ip, port] ∧
      ∃ hostId peerId portNumber, Denotes host hostId ∧ hostId < 2 ^ 64 ∧
        Denotes peer peerId ∧ peerId < 2 ^ 64 ∧ Denotes port portNumber ∧ portNumber < 2 ^ 16 ∧
        peers.lookup hostId = some ⟨hostId, peerId, ip, portNumber⟩

/-- The host id of a part, as it is read. -/
def hostIdOf (part : StdString) : HostId := toUnsigned 64 (atoi ((boostSplit ',' part).headD []))

/-- What is refused: a part that does not have four fields, and two parts whose host ids are taken
for one. -/
def Refused (members : StdString) : Prop :=
  (∃ part ∈ boostSplit '|' members, (boostSplit ',' part).length ≠ 4) ∨
    ¬ ((boostSplit '|' members).map hostIdOf).Nodup

/-- An id that comes through `int` as it is. -/
def IdFits (s : StdString) : Prop := ∃ n, Denotes s n ∧ (n < 2 ^ 31 ∨ n = 2 ^ 64 - 1)

def PortFits (s : StdString) : Prop := ∃ n, Denotes s n ∧ n < 2 ^ 16

/-- All numbers of the string are numerals that fit. -/
def NumbersFit (members : StdString) : Prop :=
  ∀ part ∈ boostSplit '|' members, ∃ host peer ip port,
    boostSplit ',' part = [host, peer, ip, port] ∧ IdFits host ∧ IdFits peer ∧ PortFits port

lemma hostIdOf_of_read {part : StdString} {member : GroupMember}
    (h : readMember part = .ok member) : hostIdOf part = member.hostId := by
  obtain ⟨host, peer, ip, port, hsplit, rfl⟩ := readMember_eq_ok.mp h
  rw [hostIdOf, hsplit]
  rfl

lemma exists_readMember {part : StdString} (h : (boostSplit ',' part).length = 4) :
    ∃ member, readMember part = .ok member := by
  obtain ⟨host, peer, ip, port, hsplit⟩ := List.length_eq_four.mp h
  exact ⟨_, readMember_eq_ok.mpr ⟨host, peer, ip, port, hsplit, rfl⟩⟩

lemma map_hostIdOf {parts : List StdString} {rows : List GroupMember}
    (hread : List.Forall₂ (fun part member => readMember part = .ok member) parts rows) :
    parts.map hostIdOf = rows.map GroupMember.hostId := by
  rw [← List.forall₂_eq_eq_eq, List.forall₂_map_left_iff, List.forall₂_map_right_iff]
  exact hread.imp fun _ _ => hostIdOf_of_read

lemma Refused.not_ok {members : StdString} (h : Refused members) (peers : PeerTable) :
    initGroupMembers members ≠ .ok peers := by
  intro hok
  obtain ⟨rows, hread, hnodup, -⟩ := initGroupMembers_eq_ok.mp hok
  rcases h with ⟨part, hpart, hlength⟩ | hdup
  · obtain ⟨member, -, hpartread⟩ := exists_row hread hpart
    obtain ⟨host, peer, ip, port, hsplit, -⟩ := readMember_eq_ok.mp hpartread
    rw [hsplit] at hlength
    exact hlength rfl
  · rw [map_hostIdOf hread] at hdup
    exact hdup hnodup

/-- Everything else gives a table. -/
lemma exists_ok_of_not_refused {members : StdString} (h : ¬ Refused members) :
    ∃ peers, initGroupMembers members = .ok peers := by
  rw [Refused, not_or, not_not] at h
  push Not at h
  obtain ⟨hfields, hnodup⟩ := h
  obtain ⟨rows, hread⟩ := exists_rows fun part hpart => exists_readMember (hfields part hpart)
  rw [map_hostIdOf hread] at hnodup
  obtain ⟨peers, hpeers⟩ := HasRows.exists_of_nodup hnodup
  exact ⟨peers, initGroupMembers_eq_ok.mpr ⟨rows, hread, hnodup, hpeers⟩⟩

section Accepted

variable {members : StdString} {peers : PeerTable}

/-- What a part says is in the table. -/
lemma lookup_of_split {part host peer ip port : StdString}
    (h : initGroupMembers members = .ok peers) (hpart : part ∈ boostSplit '|' members)
    (hsplit : boostSplit ',' part = [host, peer, ip, port]) :
    peers.lookup (toUnsigned 64 (atoi host)) = some ⟨toUnsigned 64 (atoi host),
      toUnsigned 64 (atoi peer), ip, toUnsigned 16 (atoi port)⟩ := by
  obtain ⟨member, hread, hlookup⟩ := row_of_part h hpart
  rw [readMember, hsplit] at hread
  cases hread
  exact hlookup

/-- If the number of every host field is a key of the table, each is the key that was read from the
field.  A number is a key for a field that was read wrongly only if a second field was, and the
wrongly read numerals all become the largest id. -/
lemma hostId_fits (h : initGroupMembers members = .ok peers)
    (hkeys : ∀ part ∈ boostSplit '|' members, ∃ n, Denotes ((boostSplit ',' part).headD []) n ∧
      ∃ member, peers.lookup n = some member) {part : StdString}
    (hpart : part ∈ boostSplit '|' members) {n : ℕ}
    (hn : Denotes ((boostSplit ',' part).headD []) n) : n < 2 ^ 31 ∨ n = 2 ^ 64 - 1 := by
  -- the number of any part is in the range of the numbers that were `int`s
  have hrange : ∀ part ∈ boostSplit '|' members, ∀ n, Denotes ((boostSplit ',' part).headD []) n →
      (n < 2 ^ 31 ∨ 2 ^ 64 - 2 ^ 31 ≤ n) ∧
        ∃ part' ∈ boostSplit '|' members, hostIdOf part' = n := by
    intro part hpart n hn
    obtain ⟨n', hn', member, hlookup⟩ := hkeys part hpart
    obtain rfl : n = n' := hn.2.symm.trans hn'.2
    obtain ⟨rfl, part', hpart', hread⟩ := part_of_row h hlookup
    rw [← hostIdOf_of_read hread]
    exact ⟨id_of_int _, part', hpart', rfl⟩
  obtain ⟨hsmall | hlarge, part', hpart', hread⟩ := hrange part hpart n hn
  · exact Or.inl hsmall
  · obtain ⟨m, hm, -⟩ := hkeys part' hpart'
    rcases (hrange part' hpart' m hm).1 with hmsmall | hmlarge
    · have heq : n = m := hread.symm.trans (hm.id_of_lt hmsmall)
      omega
    · exact Or.inr (hread.symm.trans (hm.id_of_ge (by omega)))

end Accepted

/-- **Numbers are stored as they are written exactly when they fit an `int`**, or the string is
refused for another reason. -/
theorem storedFaithfully_iff (members : StdString) :
    StoredFaithfully members ↔ Refused members ∨ NumbersFit members := by
  constructor
  · intro hstored
    by_cases hrefused : Refused members
    · exact Or.inl hrefused
    obtain ⟨peers, hok⟩ := exists_ok_of_not_refused hrefused
    have hkeys : ∀ part ∈ boostSplit '|' members, ∃ n, Denotes ((boostSplit ',' part).headD []) n ∧
        ∃ member, peers.lookup n = some member := by
      intro part hpart
      obtain ⟨host, peer, ip, port, hsplit, hostId, peerId, portNumber, hhost, -, -, -, -, -,
        hlookup⟩ := hstored peers hok part hpart
      rw [hsplit]
      exact ⟨hostId, hhost, _, hlookup⟩
    right
    intro part hpart
    obtain ⟨host, peer, ip, port, hsplit, hostId, peerId, portNumber, hhost, -, hpeer, -, hport,
      hportNumber, hlookup⟩ := hstored peers hok part hpart
    have hhostFits : hostId < 2 ^ 31 ∨ hostId = 2 ^ 64 - 1 :=
      hostId_fits hok hkeys hpart (by rw [hsplit]; exact hhost)
    -- so the row is the one that was read from this part
    have hrow := lookup_of_split hok hpart hsplit
    rw [hhost.id_eq_iff.mpr hhostFits, hlookup] at hrow
    simp only [Option.some.injEq, GroupMember.mk.injEq, true_and] at hrow
    exact ⟨host, peer, ip, port, hsplit, ⟨hostId, hhost, hhostFits⟩,
      ⟨peerId, hpeer, hpeer.id_eq_iff.mp hrow.1.symm⟩, ⟨portNumber, hport, hportNumber⟩⟩
  · rintro (hrefused | hfits) peers hok part hpart
    · exact absurd hok (hrefused.not_ok peers)
    · obtain ⟨host, peer, ip, port, hsplit, ⟨hostId, hhost, hhostFits⟩, ⟨peerId, hpeer, hpeerFits⟩,
        ⟨portNumber, hport, hportFits⟩⟩ := hfits part hpart
      refine ⟨host, peer, ip, port, hsplit, hostId, peerId, portNumber, hhost, by omega, hpeer,
        by omega, hport, hportFits, ?_⟩
      have hrow := lookup_of_split hok hpart hsplit
      rwa [hhost.id_eq_iff.mpr hhostFits, hpeer.id_eq_iff.mpr hpeerFits, hport.port hportFits]
        at hrow

/-- A host id of more than 32 bits becomes the id of another host. -/
theorem not_storedFaithfully_hostId :
    ¬ StoredFaithfully "4294967297,1,127.0.0.1,10000".toList := by
  intro h
  have hok : initGroupMembers "4294967297,1,127.0.0.1,10000".toList
      = .ok (Finmap.singleton 1 ⟨1, 1, "127.0.0.1".toList, 10000⟩) := by decide
  obtain ⟨host, peer, ip, port, hsplit, hostId, peerId, portNumber, hhost, -, -, -, -, -,
    hlookup⟩ := h _ hok "4294967297,1,127.0.0.1,10000".toList (by decide)
  have hfields : boostSplit ',' "4294967297,1,127.0.0.1,10000".toList
      = ["4294967297".toList, "1".toList, "127.0.0.1".toList, "10000".toList] := by decide
  rw [hfields] at hsplit
  cases hsplit
  obtain rfl : hostId = 4294967297 := hhost.2.symm.trans (by decide)
  rw [Finmap.lookup_eq_none.mpr (by decide)] at hlookup
  cases hlookup

end Jkv
