import Jkv.Host.Routing
import Jkv.Peer.MemberText

/-!
# `example/echo/server`

The server program: `CheckFlags` looks at the flags one by one, and `main` constructs a host, with
one local peer, out of them.  `startServer` is the program up to the point where it serves.

The peer id is a flag, but `KvOpCb` asks for peer 1: a server started with another id runs its raft
group and ends on the first request (`serves_clients_iff`).  The database of a peer is named after
the host path, the host id and the peer id, and two peers never have one name (`peerPath_inj`).  A
group whose servers are each started with their own row of the members string routes correctly
(`configured_group_routes`); this is where the range of the port matters, which is a `uint32` among
the flags and a `uint16_t` everywhere else.
-/

namespace Jkv

/-- `server_flags.cc`, without the flags nobody reads. -/
structure ServerFlags where
  hostId : ℕ := 0
  peerId : ℕ := 0
  ip : StdString := "127.0.0.1".toList
  port : ℕ := 0
  members : StdString := []
  logLevel : StdString := "info".toList
  hostPath : StdString := "./host".toList

/-- What `CheckFlags` ends the process with. -/
inductive FlagError
  | hostId
  | peerId
  | ip
  | port
  | members
  | logLevel
  | hostPath
  deriving DecidableEq

/-- The text that is logged. -/
def FlagError.text : FlagError → String
  | hostId => "should input host id"
  | peerId => "should input peer id"
  | ip => "should input ip"
  | port => "should input correct port"
  | members => "should input members"
  | logLevel => "should input log level"
  | hostPath => "should input host path"

namespace ServerFlags

/-- `CheckFlags`. -/
def checkFlags (flags : ServerFlags) : Except FlagError Unit := do
  if flags.hostId = 0 then
    throw .hostId
  if flags.peerId = 0 then
    throw .peerId
  if flags.ip.isEmpty then
    throw .ip
  if flags.port < 1024 || flags.port > 65535 then
    throw .port
  if flags.members.isEmpty then
    throw .members
  if flags.logLevel.isEmpty then
    throw .logLevel
  if flags.hostPath.isEmpty then
    throw .hostPath

/-- The flags `CheckFlags` lets pass. -/
structure Accepted (flags : ServerFlags) : Prop where
  hostId : flags.hostId ≠ 0
  peerId : flags.peerId ≠ 0
  ip : flags.ip ≠ []
  port : 1024 ≤ flags.port ∧ flags.port ≤ 65535
  members : flags.members ≠ []
  logLevel : flags.logLevel ≠ []
  hostPath : flags.hostPath ≠ []

lemma checkFlags_eq_ok {flags : ServerFlags} : flags.checkFlags = .ok () ↔ flags.Accepted := by
  constructor
  · intro h
    simp only [checkFlags, bind, Except.bind, pure, Except.pure, throw, throwThe,
      MonadExceptOf.throw] at h
    split_ifs at h with h₁ h₂ h₃ h₄ h₅ h₆ h₇
    simp only [Bool.or_eq_true, decide_eq_true_eq, List.isEmpty_iff] at h₃ h₄ h₅ h₆ h₇
    exact ⟨h₁, h₂, h₃, by omega, h₅, h₆, h₇⟩
  · intro h
    simp [checkFlags, h.hostId, h.peerId, h.ip, h.port.1.not_gt, h.port.2.not_gt, h.members,
      h.logLevel, h.hostPath]
    rfl

/-- `SockAddress(FLAGS_ip, FLAGS_port)`, and what the peer is told about itself: the port is
narrowed to 16 bits. -/
def address (flags : ServerFlags) : SockAddress := ⟨flags.ip, flags.port % 2 ^ 16⟩

/-- `host_opt`. -/
def hostOption (flags : ServerFlags) : PeerHostOption := ⟨flags.hostId⟩

/-- `host_opt.db_path`. -/
def dbPath (flags : ServerFlags) : StdString := flags.hostPath ++ ['_'] ++ decimal flags.hostId

/-- The path at which the constructor of `Peer` opens its database. -/
def peerPath (flags : ServerFlags) : StdString :=
  flags.dbPath ++ "/".toList ++ "peer_".toList ++ decimal flags.peerId

/-- `peer_opt`. -/
def peerOption (flags : ServerFlags) (storage : MemoryStorage) : PeerOption :=
  { hostId := flags.hostId
    peerId := flags.peerId
    ip := flags.address.ip
    port := flags.address.port
    members := flags.members
    storage := some storage }

end ServerFlags

/-- How the program ends before it serves. -/
inductive StartError
  | flags (e : FlagError)
  | fatal (f : Fatal)
  /-- `DB::Open` failed. -/
  | dbOpen (status : String)
  deriving DecidableEq

/-- The text that is logged. -/
def StartError.text : StartError → String
  | flags e => e.text
  | fatal f => f.text
  | dbOpen status => "can't open db, err_msg: " ++ status

/-- What `DB::Open` finds at a path, which it creates if it is missing. -/
abbrev Disk := StdString → Except String KvDb

variable {σ : Type}

/-- `main`, up to the point where the services are registered.  The constructor of `Peer` opens the
database when everything else is done. -/
def startServer (raft : RawNode σ) (storage : MemoryStorage) (disk : Disk) (flags : ServerFlags) :
    Except StartError (PeerHost σ) :=
  match flags.checkFlags with
  | .error e => .error (.flags e)
  | .ok _ =>
      let db := (disk flags.peerPath).toOption.getD ∅
      match (addLocalPeer raft (flags.peerOption storage) db).run
        { hostOpt := flags.hostOption } with
      | .error f _ => .error (.fatal f)
      | .ok _ host => match disk flags.peerPath with
        | .error status => .error (.dbOpen status)
        | .ok _ => .ok host

section

variable {raft : RawNode σ} {storage : MemoryStorage} {disk : Disk} {flags : ServerFlags}
  {host : PeerHost σ}

lemma addLocalPeer_flags {db : KvDb} {peer : Peer σ} (haccepted : flags.Accepted)
    (hpeer : newPeer raft (flags.peerOption storage) db = .ok peer) :
    (addLocalPeer raft (flags.peerOption storage) db).run { hostOpt := flags.hostOption } = .ok ()
      { hostOpt := ⟨flags.hostId⟩, localPeers := Finmap.insert flags.peerId peer ∅ } := by
  have hpeerId : ¬ (flags.peerOption storage).peerId ≤ 0 := by
    have hne : flags.peerId ≠ 0 := haccepted.peerId
    show ¬ flags.peerId ≤ 0
    omega
  rw [run_addLocalPeer, if_neg (by simp), if_neg hpeerId, if_neg (by simp [ServerFlags.peerOption,
    ServerFlags.hostOption, PeerHost.hostId]), hpeer]
  rfl

/-- **What a server needs to start, and what it then is.** -/
theorem startServer_eq_ok : startServer raft storage disk flags = .ok host ↔
    flags.Accepted ∧ ∃ db peer, disk flags.peerPath = .ok db ∧
      newPeer raft (flags.peerOption storage) db = .ok peer ∧
      host = { hostOpt := ⟨flags.hostId⟩, localPeers := Finmap.insert flags.peerId peer ∅ } := by
  constructor
  · intro h
    rw [startServer] at h
    split at h
    · cases h
    · next hcheck =>
        dsimp only at h
        split at h
        · cases h
        · next host₁ hadd =>
            split at h
            · cases h
            · next db hdisk =>
                cases h
                obtain ⟨-, peer, hpeer, rfl⟩ := addLocalPeer_eq_ok hadd
                rw [hdisk] at hpeer
                exact ⟨ServerFlags.checkFlags_eq_ok.mp hcheck, db, peer, hdisk, hpeer, rfl⟩
  · rintro ⟨haccepted, db, peer, hdisk, hpeer, rfl⟩
    rw [startServer, ServerFlags.checkFlags_eq_ok.mpr haccepted]
    dsimp only
    rw [hdisk]
    simp only [Except.toOption, Option.getD_some]
    rw [addLocalPeer_flags haccepted hpeer]

/-! ## Which servers serve clients -/

lemma PeerHost.lookup_isSome (host : PeerHost σ) (peerId : PeerId) :
    (host.localPeers.lookup peerId).isSome = (host.members peerId).isSome := by
  rw [PeerHost.members, Option.isSome_map]

/-- The local peers of a server are the one it was started with, at every moment. -/
lemma started_localPeers {codec : Codec} {host₀ : PeerHost σ} {h : List (PeerId × HostAct)}
    (hstart : startServer raft storage disk flags = .ok host₀)
    (run : (hostMachine raft codec).Run host₀ h host) (peerId : PeerId) :
    (host.localPeers.lookup peerId).isSome = decide (peerId = flags.peerId) := by
  obtain ⟨-, db, peer, -, -, rfl⟩ := startServer_eq_ok.mp hstart
  rw [PeerHost.lookup_isSome, run_members run, ← PeerHost.lookup_isSome]
  by_cases hid : peerId = flags.peerId
  · rw [hid, Finmap.lookup_insert]
    simp
  · simp [hid, Finmap.lookup_insert_of_ne _ hid]

/-- **A server serves clients in all its states, or ends on the first request.**  Whatever a started
server has done before, a request ends its process because there is no peer for it exactly when the
server was started with a peer id other than 1. -/
theorem serves_clients_iff {codec : Codec} {host₀ : PeerHost σ} {h : List (PeerId × HostAct)}
    (hstart : startServer raft storage disk flags = .ok host₀)
    (run : (hostMachine raft codec).Run host₀ h host) (req : KvReq) :
    (∃ host', execHost raft codec host (.kvOp req) = .error .peerMissing host') ↔
      flags.peerId ≠ 1 := by
  have hlocal := started_localPeers hstart run 1
  rw [execHost, run_kvOpCb]
  cases hpeer : host.localPeers.lookup 1 with
  | none =>
      rw [hpeer] at hlocal
      have hne : flags.peerId ≠ 1 := fun hid => by simp [hid] at hlocal
      exact ⟨fun _ => hne, fun _ => ⟨_, rfl⟩⟩
  | some peer =>
      rw [hpeer] at hlocal
      have hid : flags.peerId = 1 := by simpa [eq_comm] using hlocal
      refine ⟨?_, fun hne => absurd hid hne⟩
      rintro ⟨host', hend⟩
      dsimp only at hend
      split at hend
      · cases hend
      · next f s hrun =>
          cases hend
          cases (run_kvOp_error raft codec hrun).1

end

/-- A server of a group of one, with this peer id. -/
def soloFlags (peerId : PeerId) : ServerFlags :=
  { hostId := 1, peerId := peerId, port := 10000, members := "1,1,127.0.0.1,10000".toList }

lemma exists_solo (peerId : PeerId) (hpeerId : peerId ≠ 0) :
    ∃ host, startServer TrioNode.raft ⟨(.kOk, 0)⟩ (fun _ => .ok ∅) (soloFlags peerId)
      = .ok host := by
  have htexts : "127.0.0.1".toList ≠ [] ∧ "1,1,127.0.0.1,10000".toList ≠ [] ∧
      "info".toList ≠ [] ∧ "./host".toList ≠ [] := by decide
  have hmembers : initGroupMembers "1,1,127.0.0.1,10000".toList
      = .ok (Finmap.singleton 1 ⟨1, 1, "127.0.0.1".toList, 10000⟩) := by decide
  have haccepted : (soloFlags peerId).Accepted :=
    ⟨one_ne_zero, hpeerId, htexts.1, ⟨by show 1024 ≤ 10000; omega, by show 10000 ≤ 65535; omega⟩,
      htexts.2.1, htexts.2.2.1, htexts.2.2.2⟩
  obtain ⟨peer, hpeer⟩ : ∃ peer, newPeer TrioNode.raft
      ((soloFlags peerId).peerOption ⟨(.kOk, 0)⟩) ∅ = .ok peer :=
    ⟨_, newPeer_eq_ok.mpr ⟨_, _, hmembers, rfl, rfl, rfl⟩⟩
  exact ⟨_, startServer_eq_ok.mpr ⟨haccepted, ∅, peer, rfl, hpeer, rfl⟩⟩

/-- A server that was started with peer id 7 ends on the first request. -/
theorem serves_clients_iff_seven : ∃ host host',
    startServer TrioNode.raft ⟨(.kOk, 0)⟩ (fun _ => .ok ∅) (soloFlags 7) = .ok host ∧
      execHost TrioNode.raft shortCodec host (.kvOp (putRequest 7 9))
        = .error .peerMissing host' := by
  obtain ⟨host, hstart⟩ := exists_solo 7 (by decide)
  obtain ⟨host', hend⟩ := (serves_clients_iff hstart Machine.Run.nil (putRequest 7 9)).mpr
    (by decide)
  exact ⟨host, host', hstart, hend⟩

/-! ## Where the databases are -/

/-- A text is cut at its last separator in one way only. -/
lemma append_cons_inj_last {α : Type} {c : α} {xs ys as bs : List α} (has : c ∉ as) (hbs : c ∉ bs)
    (h : xs ++ c :: as = ys ++ c :: bs) : xs = ys ∧ as = bs := by
  rcases List.append_eq_append_iff.mp h with ⟨zs, rfl, hzs⟩ | ⟨zs, rfl, hzs⟩
  · cases zs with
    | nil => simpa using hzs
    | cons z zs =>
        rw [List.cons_append, List.cons.injEq] at hzs
        exact absurd (by rw [hzs.2]; simp) has
  · cases zs with
    | nil => simpa [eq_comm] using hzs
    | cons z zs =>
        rw [List.cons_append, List.cons.injEq] at hzs
        exact absurd (by rw [hzs.2]; simp) hbs

lemma decimal_inj {m n : ℕ} (h : decimal m = decimal n) : m = n := by
  rw [← (denotes_decimal m).2, h, (denotes_decimal n).2]

/-- **No two peers have one database path.**  The paths of two peers are equal exactly when the
servers were started with one host path, one host id and one peer id. -/
theorem peerPath_inj (flags flags' : ServerFlags) : flags.peerPath = flags'.peerPath ↔
    flags.hostPath = flags'.hostPath ∧ flags.hostId = flags'.hostId ∧
      flags.peerId = flags'.peerId := by
  constructor
  · intro h
    have hpath : ∀ flags : ServerFlags, flags.peerPath
        = (flags.hostPath ++ '_' :: (decimal flags.hostId ++ "/peer".toList)) ++
          '_' :: decimal flags.peerId := by
      intro flags
      simp [ServerFlags.peerPath, ServerFlags.dbPath]
    rw [hpath, hpath] at h
    obtain ⟨hhost, hpeer⟩ := append_cons_inj_last (not_mem_decimal rfl _) (not_mem_decimal rfl _) h
    have hno : ∀ n, '_' ∉ decimal n ++ "/peer".toList := by
      intro n
      rw [List.mem_append, not_or]
      exact ⟨not_mem_decimal rfl n, by decide⟩
    obtain ⟨hhostPath, hid⟩ := append_cons_inj_last (hno _) (hno _) hhost
    exact ⟨hhostPath, decimal_inj (List.append_cancel_right hid), decimal_inj hpeer⟩
  · rintro ⟨hhostPath, hhostId, hpeerId⟩
    rw [ServerFlags.peerPath, ServerFlags.peerPath, ServerFlags.dbPath, ServerFlags.dbPath,
      hhostPath, hhostId, hpeerId]

/-! ## A group that is configured by its members string -/

/-- The flags a server is started with for its own row. -/
def GroupMember.flags (members : StdString) (row : GroupMember) : ServerFlags :=
  { hostId := row.hostId, peerId := row.peerId, ip := row.ip, port := row.port, members := members }

/-- What `CheckFlags` asks of a row, when its server is started with it. -/
structure GroupMember.Startable (row : GroupMember) : Prop where
  hostId : row.hostId ≠ 0
  peerId : row.peerId ≠ 0
  ip : row.ip ≠ []
  port : 1024 ≤ row.port

/-- The rows a group can be configured with: there is one, they can be written, and no two have one
host id or one address. -/
structure Configured (rows : List GroupMember) : Prop where
  nonempty : rows ≠ []
  writable : ∀ row ∈ rows, row.Writable
  hostIds : (rows.map GroupMember.hostId).Nodup
  addresses : (rows.map GroupMember.address).Nodup

/-- Whose server is reached at an address, when every server listens where its row says. -/
def netOf (rows : List GroupMember) (addr : SockAddress) : Option HostId :=
  (rows.find? fun row => row.address = addr).map GroupMember.hostId

namespace Configured

variable {rows : List GroupMember} {row : GroupMember}

/-- The text of the rows is read back as the table of the rows. -/
lemma exists_table (hc : Configured rows) : ∃ table,
    initGroupMembers (membersText rows) = .ok table ∧ HasRows GroupMember.hostId table rows := by
  have hread : List.Forall₂ (fun part member => readMember part = .ok member)
      (boostSplit '|' (membersText rows)) rows := by
    rw [boostSplit_membersText hc.nonempty hc.writable, List.forall₂_map_left_iff,
      List.forall₂_same]
    intro member hmember
    exact (hc.writable member hmember).readMember_toText
  rw [initGroupMembers_eq]
  exact (foldlM_addRow_of_read GroupMember.hostId Fatal.sameHost hread).1 hc.hostIds

lemma net_address (hc : Configured rows) (hrow : row ∈ rows) :
    netOf rows row.address = some row.hostId := by
  have hfind : rows.find? (fun r => r.address = row.address) = some row := by
    cases hfind : rows.find? (fun r => r.address = row.address) with
    | none =>
        have hne := List.find?_eq_none.mp hfind row hrow
        simp at hne
    | some r =>
        have haddr : r.address = row.address := by simpa using List.find?_some hfind
        rw [List.inj_on_of_nodup_map hc.addresses (List.mem_of_find?_eq_some hfind) hrow haddr]
  rw [netOf, hfind]
  rfl

/-- The text of the members is not empty, as it has digits in it. -/
lemma membersText_ne_nil (hc : Configured rows) : membersText rows ≠ [] := by
  intro hempty
  obtain ⟨row, hrow⟩ := List.exists_mem_of_ne_nil rows hc.nonempty
  have hsplit := boostSplit_membersText hc.nonempty hc.writable
  rw [hempty] at hsplit
  have hone : [[]] = rows.map GroupMember.toText := hsplit
  have hmem : row.toText ∈ rows.map GroupMember.toText := List.mem_map_of_mem hrow
  rw [← hone, List.mem_singleton] at hmem
  have hread := (hc.writable row hrow).readMember_toText
  rw [hmem] at hread
  cases hread

/-- Which rows pass the check. -/
lemma accepted_iff (hc : Configured rows) (hrow : row ∈ rows) :
    (row.flags (membersText rows)).Accepted ↔ row.Startable := by
  have hdefaults : "info".toList ≠ [] ∧ "./host".toList ≠ [] := by decide
  have hport : row.port ≤ 65535 := by
    have hlt : row.port < 2 ^ 16 := (hc.writable row hrow).port
    omega
  constructor
  · intro h
    exact ⟨h.hostId, h.peerId, h.ip, h.port.1⟩
  · intro h
    exact ⟨h.hostId, h.peerId, h.ip, ⟨h.port, hport⟩, hc.membersText_ne_nil, hdefaults.1,
      hdefaults.2⟩

/-- A row's server starts when the row passes the check, the storage has its snapshot and the
database opens, and only then. -/
lemma starts_iff (hc : Configured rows) (hrow : row ∈ rows) (raft : RawNode σ)
    {storage : MemoryStorage} {disk : Disk} :
    (∃ host, startServer raft storage disk (row.flags (membersText rows)) = .ok host) ↔
      row.Startable ∧ storage.getSnapshot.1 = .kOk ∧
        ∃ db, disk (row.flags (membersText rows)).peerPath = .ok db := by
  constructor
  · rintro ⟨host, hstart⟩
    obtain ⟨haccepted, db, peer, hdb, hpeer, -⟩ := startServer_eq_ok.mp hstart
    obtain ⟨peers, storage', -, hstorage, hsnapshot, -⟩ := newPeer_eq_ok.mp hpeer
    obtain rfl := Option.some.inj hstorage
    exact ⟨(hc.accepted_iff hrow).mp haccepted, hsnapshot, db, hdb⟩
  · rintro ⟨hrow', hsnapshot, db, hdb⟩
    obtain ⟨table, hparsed, -⟩ := hc.exists_table
    obtain ⟨peer, hpeer⟩ : ∃ peer, newPeer raft
        ((row.flags (membersText rows)).peerOption storage) db = .ok peer :=
      ⟨_, newPeer_eq_ok.mpr ⟨table, storage, hparsed, rfl, hsnapshot, rfl⟩⟩
    exact ⟨_, startServer_eq_ok.mpr ⟨(hc.accepted_iff hrow).mpr hrow', db, peer, hdb, hpeer, rfl⟩⟩

/-- A port that passed the check is not changed by narrowing it. -/
lemma address_flags (hc : Configured rows) (hrow : row ∈ rows) :
    (row.flags (membersText rows)).address = row.address := by
  have hlt : row.port < 2 ^ 16 := (hc.writable row hrow).port
  show (⟨row.ip, row.port % 2 ^ 16⟩ : SockAddress) = ⟨row.ip, row.port⟩
  rw [Nat.mod_eq_of_lt hlt]

end Configured

/-- **A group that is configured by one members string routes correctly.**  Take any rows that can
be written down, with distinct host ids and distinct addresses, and start one server for each row,
with the flags of this row and the text of all rows.  A server starts exactly when its row has no id
0, an ip and a port that is not reserved, the storage has its snapshot and the database opens.  Once
all of them have started, in every state the group reaches, every message to a member can be sent,
reaches the member's host, and is stepped on the peer it is for. -/
theorem configured_group_routes {rows : List GroupMember} (hc : Configured rows)
    (raft : RawNode σ) (codec : Codec) (storage : MemoryStorage) (disks : HostId → Disk) :
    (∀ row ∈ rows,
      (∃ host, startServer raft storage (disks row.hostId) (row.flags (membersText rows))
        = .ok host) ↔
      row.Startable ∧ storage.getSnapshot.1 = .kOk ∧
        ∃ db, disks row.hostId (row.flags (membersText rows)).peerPath = .ok db) ∧
    ∀ hosts : HostId → PeerHost σ,
      (∀ row ∈ rows, startServer raft storage (disks row.hostId) (row.flags (membersText rows))
        = .ok (hosts row.hostId)) →
      ∃ table, initGroupMembers (membersText rows) = .ok table ∧
        (∀ b, b ∈ table ↔ b ∈ rows.map GroupMember.hostId) ∧
        RoutesCorrectly raft codec table (netOf rows) hosts := by
  refine ⟨fun row hrow => hc.starts_iff hrow raft, ?_⟩
  intro hosts hstart
  obtain ⟨table, hparsed, hrows⟩ := hc.exists_table
  let opts : HostId → PeerOption := fun b =>
    ((table.lookup b).map fun row => (row.flags (membersText rows)).peerOption storage).getD {}
  have hopts : ∀ row ∈ rows, opts row.hostId
      = (row.flags (membersText rows)).peerOption storage := by
    intro row hrow
    have hlookup : table.lookup row.hostId = some row := (hrows _ row).mpr ⟨hrow, rfl⟩
    simp only [opts, hlookup, Option.map_some, Option.getD_some]
  have hd : Deployed raft (membersText rows) table opts (netOf rows) hosts := by
    refine ⟨hparsed, ?_, ?_⟩
    · intro b hb
      obtain ⟨row, hrow⟩ := Finmap.mem_iff.mp hb
      obtain ⟨hmem, rfl⟩ := (hrows b row).mp hrow
      obtain ⟨haccepted, db, peer, -, hpeer, hhost⟩ := startServer_eq_ok.mp (hstart row hmem)
      rw [hopts row hmem, hhost]
      exact ⟨rfl, db, addLocalPeer_flags haccepted hpeer⟩
    · intro b hb
      obtain ⟨row, hrow⟩ := Finmap.mem_iff.mp hb
      obtain ⟨hmem, rfl⟩ := (hrows b row).mp hrow
      have haddress : (⟨(opts row.hostId).ip, (opts row.hostId).port⟩ : SockAddress)
          = row.address := by
        rw [hopts row hmem]
        exact hc.address_flags hmem
      rw [haddress]
      exact hc.net_address hmem
  have hown : OwnRows table opts (netOf rows) := by
    intro b row hrow
    obtain ⟨hmem, rfl⟩ := (hrows b row).mp hrow
    rw [hopts row hmem]
    exact ⟨rfl, hc.net_address hmem⟩
  exact ⟨table, hparsed, fun b => hrows.mem_iff, hd.routes hown⟩

/-- The group of the example scripts: every server starts, and the group routes correctly. -/
theorem configured_group_routes_scripts :
    ∃ (table : PeerTable) (hosts : HostId → PeerHost TrioNode),
      (∀ row ∈ scriptMembers, startServer TrioNode.raft ⟨(.kOk, 0)⟩ (fun _ => .ok ∅)
        (row.flags (membersText scriptMembers)) = .ok (hosts row.hostId)) ∧
      (∀ b, b ∈ table ↔ b ∈ [1, 2, 3]) ∧
      RoutesCorrectly TrioNode.raft shortCodec table (netOf scriptMembers) hosts := by
  have hc : Configured scriptMembers := by
    refine ⟨by simp [scriptMembers], ?_, by decide, by decide⟩
    intro row hrow
    simp only [scriptMembers, List.mem_cons, List.not_mem_nil, or_false] at hrow
    rcases hrow with rfl | rfl | rfl <;> constructor <;> decide
  have hstartable : ∀ row ∈ scriptMembers, row.Startable := by
    intro row hrow
    simp only [scriptMembers, List.mem_cons, List.not_mem_nil, or_false] at hrow
    rcases hrow with rfl | rfl | rfl <;> constructor <;> decide
  obtain ⟨hstarts, hroutes⟩ := configured_group_routes hc TrioNode.raft shortCodec ⟨(.kOk, 0)⟩
    fun _ _ => .ok ∅
  have hhost : ∀ row ∈ scriptMembers, ∃ host, startServer TrioNode.raft ⟨(.kOk, 0)⟩
      (fun _ => .ok ∅) (row.flags (membersText scriptMembers)) = .ok host :=
    fun row hrow => (hstarts row hrow).mpr ⟨hstartable row hrow, rfl, ∅, rfl⟩
  let hosts : HostId → PeerHost TrioNode := fun b =>
    ((scriptMembers.find? (·.hostId = b)).bind fun row => (startServer TrioNode.raft ⟨(.kOk, 0)⟩
      (fun _ => .ok ∅) (row.flags (membersText scriptMembers))).toOption).getD { hostOpt := {} }
  have hstart : ∀ row ∈ scriptMembers, startServer TrioNode.raft ⟨(.kOk, 0)⟩ (fun _ => .ok ∅)
      (row.flags (membersText scriptMembers)) = .ok (hosts row.hostId) := by
    intro row hrow
    obtain ⟨host, hok⟩ := hhost row hrow
    have hfind : scriptMembers.find? (·.hostId = row.hostId) = some row := by
      simp only [scriptMembers, List.mem_cons, List.not_mem_nil, or_false] at hrow
      rcases hrow with rfl | rfl | rfl <;> rfl
    simp only [hosts, hfind, hok, Option.bind_some, Except.toOption, Option.getD_some]
  obtain ⟨table, -, hmem, hall⟩ := hroutes hosts hstart
  exact ⟨table, hosts, hstart, hmem, hall⟩

end Jkv
