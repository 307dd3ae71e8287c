import NatsExplorer.Alerts.Rule
import NatsExplorer.Go.Json
import NatsExplorer.Library.Cutting
import NatsExplorer.Message.Payload

/-! The backup of a stream and its restore (`internal/handler/stream_extras.go`): the chunks of a snapshot go into a zip beside
its metadata, and from the zip in chunks of another size to a server. What packs the files and what writes JSON stay parameters. -/
namespace NatsExplorer.Handler.StreamBackup
open Go Go.json Cutting

def backupMetaFile : Str := "backup.json".toList
def backupDataFile : Str := "stream.arc.s2".toList
def backupLegacyDataFile : Str := "stream.tar.s2".toList
def restoreChunk : ℕ := 64 * 1024
/-- Bounds an upload. -/
def restoreMaxBytes : ℕ := 8 * 2 ^ 30
/-- What is read of the metadata. -/
def metaMaxBytes : ℕ := 2 ^ 20

/-- `archive/zip`; an archive is known by its size and by what is read from it. -/
class Archives (A : Type) where
  write : List (Str × List UInt8) → A
  read : A → Except Str (List (Str × List UInt8))
  size : A → ℕ
  /-- The files that are read are those that were written. -/
  read_write (files : List (Str × List UInt8)) : read (write files) = .ok files

/-- The configuration and the state of a stream, in the server's own JSON. -/
structure Meta where
  config : Value := .null
  state : Value := .null

/-- The map that `backup.json` is written from. -/
def Meta.members (m : Meta) : List (Str × Value) := [("config".toList, m.config), ("state".toList, m.state)]

class Marshaller where
  /-- `json.MarshalIndent` of the map. -/
  indent : Meta → List UInt8
  /-- What `json.Unmarshal` says of a text it does not read. -/
  refusal : List UInt8 → Str

section Decoding
variable [Recognizer] [Folding]

/-- `json.RawMessage` -/
def raw : Decoder Value where
  into _ v := some v
  kind _ := True
  takes _ _ := iff_of_true rfl trivial

structure ApiError where
  code : Int := 0
  errCode : Int := 0
  description : Str := []

def apiErrorFields : List (String × Decoder ApiError) :=
  [("code", .field ApiError.code (fun e n => { e with code := n }) .int),
    ("err_code", .field ApiError.errCode (fun e n => { e with errCode := n }) .int),
    ("description", .field ApiError.description (fun e s => { e with description := s }) .string)]

/-- Reads the error of a JetStream API answer, or nil. -/
def apiError (data : List UInt8) : Option Str :=
  let read := (json.unmarshal data).bind
    ((Decoder.struct [("error", .field id (fun _ e => e) (.pointer (.struct apiErrorFields) {}))]).into (none : Option ApiError))
  read.join.map fun e => e.description ++ " (".toList ++ Alerts.digits e.code ++ [')']

def metaFields : List (String × Decoder Meta) :=
  [("config", .field Meta.config (fun m v => { m with config := v }) raw),
    ("state", .field Meta.state (fun m v => { m with state := v }) raw)]

def metaOf (data : List UInt8) : Option Meta := (json.unmarshal data).bind ((Decoder.struct metaFields).into {})

/-- `cfg.Config.Name` -/
def streamName (metaJSON : List UInt8) : Option Str :=
  (json.unmarshal metaJSON).bind
    ((Decoder.struct [("config", .struct [("name", .string)])]).into [])

/-- The first of `strconv.Atoi`, whatever the second. -/
def atoi (s : Str) : Int :=
  let (negative, digits) :=
    match s with
    | '-' :: digits => (true, digits)
    | '+' :: digits => (false, digits)
    | digits => (false, digits)
  if digits = [] ∨ ¬ digits.all Char.isDigit then 0
  else
    let n : Int := digits.foldl (fun n c => 10 * n + (c.toNat - '0'.toNat : ℕ)) 0
    max (-2 ^ 63) (min (2 ^ 63 - 1) (if negative then -n else n))

/-- Picks the archive name by the server's version. -/
def backupDataName (version : Str) : Str :=
  match (strings.trimPrefix version ['v']).splitOn '.' with
  | major :: minor :: _ => if 2 < atoi major ∨ (atoi major = 2 ∧ 15 ≤ atoi minor) then backupDataFile else backupLegacyDataFile
  | _ => backupLegacyDataFile

/-! ### The snapshot -/

structure Msg where
  data : List UInt8
  reply : Str := []
  status : Str := []
  description : Str := []

/-- What the loop waits for: a message, or the end of the context. -/
inductive Arrival where
  | message (m : Msg)
  | cancelled (error : Str)

/-- A server that is asked for a snapshot. After the arrivals it sends nothing more. -/
structure Snapshot where
  version : Str
  answer : Except Str (List UInt8)
  arrivals : List Arrival

/-- The loop over the chunks, with the acknowledgements that are sent. -/
def receive : List Arrival → List Str × Except Str (List UInt8)
  | [] => ([], .error "snapshot: the server stopped sending chunks".toList)
  | .cancelled e :: _ => ([], .error e)
  | .message m :: rest =>
    if m.data = [] then
      if m.status ≠ [] ∧ ¬ strings.contains m.status "204".toList then
        ([], .error ("snapshot: ".toList ++ m.status ++ [' '] ++ m.description))
      else ([], .ok [])
    else
      let (acks, data) := receive rest
      (if m.reply ≠ [] then m.reply :: acks else acks, data.map (m.data ++ ·))

/-- Runs the snapshot protocol. -/
def snapshotToZip {A : Type} [Archives A] [Marshaller] (s : Snapshot) : Except Str A :=
  match s.answer with
  | .error e => .error ("snapshot request: ".toList ++ e)
  | .ok resp =>
    match apiError resp with
    | some e => .error ("snapshot: ".toList ++ e)
    | none =>
      match metaOf resp with
      | none => .error (Marshaller.refusal resp)
      | some m =>
        match (receive s.arrivals).2 with
        | .error e => .error e
        | .ok data => .ok (Archives.write [(backupMetaFile, Marshaller.indent m), (backupDataName s.version, data)])

/-- The archive with status 200, or a status and an error. -/
def backup {A : Type} [Archives A] [Marshaller] (s : Snapshot) : Except (ℕ × Str) A :=
  match snapshotToZip s with
  | .ok archive => .ok archive
  | .error e => .error (if strings.contains e "not found".toList then 404 else 502, e)

/-! ### The restore -/

/-- The answers of the server a backup is restored to. -/
structure Target where
  restore : Str → List UInt8 → Except Str (List UInt8)
  /-- to the chunks, by their number -/
  chunk : ℕ → List UInt8 → Except Str (List UInt8)
  /-- to the empty message -/
  last : Except Str (List UInt8)
  jetStream : Except Str Unit
  stream : Str → Except Str Unit
  info : Str → Except Str Unit

/-- What is sent. -/
inductive Request where
  | restore (name : Str) (metaJSON : List UInt8)
  | chunk (subject : Str) (data : List UInt8)
  deriving DecidableEq

inductive Answer where
  | failed (status : ℕ) (error : Str)
  | restored (name : Str)

/-- `started.DeliverSubject` -/
def deliverSubject (data : List UInt8) : Option Str :=
  (json.unmarshal data).bind ((Decoder.struct [("deliver_subject", .string)]).into [])

/-- The loop over the entries of an archive. -/
def pick : List (Str × List UInt8) → Option (List UInt8) → Option (List UInt8) → Except Str (Option (List UInt8) × Option (List UInt8))
  | [], metadata, data => .ok (metadata, data)
  | f :: files, metadata, data =>
    if f.1 = backupMetaFile then pick files (some f.2) data
    else if f.1 = backupDataFile ∨ f.1 = backupLegacyDataFile then
      if data ≠ none then .error ("the backup holds both ".toList ++ backupDataFile ++ " and ".toList ++ backupLegacyDataFile)
      else pick files metadata (some f.2)
    else pick files metadata data

/-- The loop that sends the data: `io.ReadFull` fills the chunk, or comes to the end before it does. -/
def upload (t : Target) (subject : Str) (i : ℕ) (data : List UInt8) : List Request × Option Str :=
  if _empty : data = [] then ([], none)
  else
    let chunk := data.take restoreChunk
    match t.chunk i chunk with
    | .error e => ([.chunk subject chunk], some ("restore: sending a chunk: ".toList ++ e))
    | .ok ack =>
      match apiError ack with
      | some e => ([.chunk subject chunk], some ("restore: ".toList ++ e))
      | none =>
        if chunk.length < restoreChunk then ([.chunk subject chunk], none)
        else
          let (more, failure) := upload t subject (i + 1) (data.drop restoreChunk)
          (.chunk subject chunk :: more, failure)
termination_by data.length
decreasing_by
  have := List.length_pos_of_ne_nil _empty
  have : 0 < restoreChunk := by decide
  rw [List.length_drop]
  omega

/-- What follows the upload. -/
def finish (t : Target) (name : Str) : Answer :=
  match t.last with
  | .error e => .failed 502 ("restore: ".toList ++ e)
  | .ok final =>
    match apiError final with
    | some e => .failed 502 ("restore: ".toList ++ e)
    | none =>
      match t.jetStream with
      | .error e => .failed 400 e
      | .ok () =>
        match t.stream name with
        | .error e => .failed 502 e
        | .ok () =>
          match t.info name with
          | .error e => .failed 502 e
          | .ok () => .restored name

/-- The requests, once the stream has a name. -/
def restoreNamed (t : Target) (name : Str) (metaJSON data : List UInt8) : List Request × Answer :=
  let asked := Request.restore name metaJSON
  match t.restore name metaJSON with
  | .error e => ([asked], .failed 502 ("restore request: ".toList ++ e))
  | .ok resp =>
    match apiError resp with
    | some e => ([asked], .failed 502 ("restore: ".toList ++ e))
    | none =>
      match deliverSubject resp with
      | none | some [] => ([asked], .failed 502 "restore: the server named no subject for the chunks".toList)
      | some subject =>
        match upload t subject 0 data with
        | (sent, some e) => (asked :: sent, .failed 502 e)
        | (sent, none) => (asked :: sent ++ [.chunk subject []], finish t name)

/-- From the metadata and the data on. -/
def restoreFiles (t : Target) (metadata data : List UInt8) : List Request × Answer :=
  let metaJSON := metadata.take metaMaxBytes
  match streamName metaJSON with
  | none | some [] => ([], .failed 400 (backupMetaFile ++ " names no stream".toList))
  | some name => restoreNamed t name metaJSON data

def restore {A : Type} [Archives A] (t : Target) (body : A) : List Request × Answer :=
  if restoreMaxBytes < Archives.size body then ([], .failed 400 "http: request body too large".toList)
  else
    match Archives.read body with
    | .error e => ([], .failed 400 ("not a zip file: ".toList ++ e))
    | .ok files =>
      match pick files none none with
      | .error e => ([], .failed 400 e)
      | .ok (some metadata, some data) => restoreFiles t metadata data
      | .ok _ => ([], .failed 400 ("a backup is a zip with ".toList ++ backupMetaFile ++ " and ".toList ++ backupDataFile ++ " or ".toList ++
          backupLegacyDataFile))

/-! ### What is backed up and what is restored -/

omit [Recognizer] [Folding] in
/-- The chunks are acknowledged and put together, up to the empty message. -/
theorem receive_iff {arrivals : List Arrival} {data : List UInt8} : (receive arrivals).2 = .ok data ↔
    ∃ (msgs : List Msg) (last : Msg) (rest : List Arrival), arrivals = msgs.map .message ++ .message last :: rest ∧
      (∀ m ∈ msgs, m.data ≠ []) ∧ last.data = [] ∧ (last.status = [] ∨ strings.contains last.status "204".toList) ∧
      (msgs.map Msg.data).flatten = data := by
  induction arrivals generalizing data with
  | nil =>
    refine iff_of_false nofun ?_
    rintro ⟨msgs, last, rest, whole, -⟩
    cases msgs <;> cases whole
  | cons a arrivals ih =>
    cases a with
    | cancelled e =>
      refine iff_of_false nofun ?_
      rintro ⟨msgs, last, rest, whole, -⟩
      cases msgs <;> cases whole
    | message m =>
      rw [receive]
      by_cases empty : m.data = []
      · rw [if_pos empty]
        split
        · next bad =>
          refine iff_of_false nofun ?_
          rintro ⟨msgs, last, rest, whole, some, -, ended, -⟩
          cases msgs with
          | nil =>
            cases whole
            exact bad.2 (ended.resolve_left bad.1)
          | cons m' msgs =>
            cases whole
            exact some m List.mem_cons_self empty
        · next good =>
          constructor
          · intro same
            cases same
            exact ⟨[], m, arrivals, rfl, nofun, empty, by tauto, rfl⟩
          · rintro ⟨msgs, last, rest, whole, some, -, -, rfl⟩
            cases msgs with
            | nil => rfl
            | cons m' msgs =>
              cases whole
              exact absurd empty (some m List.mem_cons_self)
      · rw [if_neg empty]
        constructor
        · intro same
          dsimp only at same
          cases later : (receive arrivals).2 with
          | error e =>
            rw [later] at same
            cases same
          | ok more =>
            rw [later] at same
            cases same
            obtain ⟨msgs, last, rest, rfl, some, ends, ended, rfl⟩ := ih.mp later
            exact ⟨m :: msgs, last, rest, rfl, List.forall_mem_cons.mpr ⟨empty, some⟩, ends, ended, rfl⟩
        · rintro ⟨msgs, last, rest, whole, some, ends, ended, rfl⟩
          cases msgs with
          | nil =>
            cases whole
            exact absurd ends empty
          | cons m' msgs =>
            cases whole
            have later := ih.mpr ⟨msgs, last, rest, rfl, (List.forall_mem_cons.mp some).2, ends, ended, rfl⟩
            dsimp only
            rw [later]
            rfl

/-- The server answered with a configuration and a state, and sent the chunks and the empty message that ends them. -/
structure Completed (s : Snapshot) (m : Meta) (chunks : List (List UInt8)) : Prop where
  answered : ∃ resp, s.answer = .ok resp ∧ apiError resp = none ∧ metaOf resp = some m
  arrived : ∃ (msgs : List Msg) (last : Msg) (rest : List Arrival), s.arrivals = msgs.map .message ++ .message last :: rest ∧
    msgs.map Msg.data = chunks ∧ last.data = [] ∧ (last.status = [] ∨ strings.contains last.status "204".toList)
  nonempty : ∀ c ∈ chunks, c ≠ []

/-- The requests that bring a stream to a server: its configuration and state, its data in chunks, and one empty message. -/
def Restores (m : Meta) (data : List UInt8) (requests : List Request) : Prop :=
  ∃ (name : Str) (metaJSON : List UInt8) (subject : Str) (chunks : List (List UInt8)),
    requests = .restore name metaJSON :: chunks.map (.chunk subject) ++ [.chunk subject []] ∧
    json.unmarshal metaJSON = some (.object m.members) ∧ (∀ c ∈ chunks, c ≠ [] ∧ c.length ≤ restoreChunk) ∧ chunks.flatten = data

/-- A server that takes everything. -/
structure Target.Accepts (t : Target) : Prop where
  restore (name : Str) (metaJSON : List UInt8) : ∃ resp subject, t.restore name metaJSON = .ok resp ∧ apiError resp = none ∧
    deliverSubject resp = some subject ∧ subject ≠ []
  chunk (i : ℕ) (c : List UInt8) : ∃ ack, t.chunk i c = .ok ack ∧ apiError ack = none

/-- The data goes out in chunks of the size, as far as they are taken. -/
theorem upload_spec (t : Target) (subject : Str) (i : ℕ) (data : List UInt8) :
    ∃ chunks : List (List UInt8), (∀ c ∈ chunks, c ≠ [] ∧ c.length ≤ restoreChunk) ∧ chunks.flatten = data ∧
      (upload t subject i data).1 <+: chunks.map (.chunk subject) ∧
      ((upload t subject i data).2 = none → (upload t subject i data).1 = chunks.map (.chunk subject)) ∧
      (t.Accepts → (upload t subject i data).2 = none) := by
  have positive : 0 < restoreChunk := by decide
  have first {data : List UInt8} (some : data ≠ []) : data.take restoreChunk ≠ [] ∧ (data.take restoreChunk).length ≤ restoreChunk :=
    ⟨fun none => (List.take_eq_nil_iff.mp none).elim positive.ne' some, List.length_take_le _ _⟩
  -- where a chunk is refused, the rest could have been sent like this
  have refused {data : List UInt8} (some : data ≠ []) : ∃ chunks : List (List UInt8),
      (∀ c ∈ data.take restoreChunk :: chunks, c ≠ [] ∧ c.length ≤ restoreChunk) ∧ (data.take restoreChunk :: chunks).flatten = data :=
    ⟨(Cuts.even restoreChunk positive).pieces (data.drop restoreChunk),
      List.forall_mem_cons.mpr ⟨first some, fun c there => ⟨Cuts.piecesFrom_ne_nil _ there, Cuts.even_length positive there⟩⟩, by
        rw [List.flatten_cons, Cuts.pieces_flatten, List.take_append_drop]⟩
  fun_induction upload t subject i data with
  | case1 i => exact ⟨[], nofun, rfl, List.nil_prefix, fun _ => rfl, fun _ => rfl⟩
  | case2 i data some chunk e failed =>
    obtain ⟨chunks, each, whole⟩ := refused some
    refine ⟨_, each, whole, ⟨_, rfl⟩, nofun, fun accepts => ?_⟩
    obtain ⟨ack, taken, -⟩ := accepts.chunk i chunk
    rw [failed] at taken
    cases taken
  | case3 i data some chunk ack answered e failed =>
    obtain ⟨chunks, each, whole⟩ := refused some
    refine ⟨_, each, whole, ⟨_, rfl⟩, nofun, fun accepts => ?_⟩
    obtain ⟨ack', taken, fine⟩ := accepts.chunk i chunk
    obtain rfl := Except.ok.inj (answered.symm.trans taken)
    rw [failed] at fine
    cases fine
  | case4 i data some chunk ack answered fine short =>
    have whole : data.take restoreChunk = data := by
      refine List.take_of_length_le ?_
      rw [List.length_take] at short
      omega
    refine ⟨[chunk], List.forall_mem_singleton.mpr (first some), ?_, List.prefix_rfl, fun _ => rfl, fun _ => rfl⟩
    rw [List.flatten_singleton]
    exact whole
  | case5 i data some chunk ack answered fine full more failure sent ih =>
    obtain ⟨chunks, each, whole, begins, done, accepted⟩ := ih
    rw [sent] at begins done accepted
    refine ⟨chunk :: chunks, List.forall_mem_cons.mpr ⟨first some, each⟩, ?_, (List.prefix_cons_inj _).mpr begins,
      fun finished => congrArg _ (done finished), accepted⟩
    rw [List.flatten_cons, whole]
    exact List.take_append_drop restoreChunk data

variable {A : Type} [Archives A] [Marshaller]

omit [Recognizer] [Marshaller] in
/-- A member that no field is named after changes nothing. -/
theorem member_other {α : Type} {name : String} {key : Str} (apart : foldName key ≠ foldName name.toList) (d : Decoder α) (a : α) (v : Value) :
    Decoder.member [(name, d)] a (key, v) = some a := by
  have absent : Decoder.fieldOf [(name, d)] key = none := by
    rw [Decoder.fieldOf, List.find?_singleton, if_neg fun same => apart (of_decide_eq_true same)]
    rfl
  rw [Decoder.member, absent]

omit [Recognizer] [Marshaller] in
theorem member_own {α : Type} (name : String) (d : Decoder α) (a : α) (v : Value) : Decoder.member [(name, d)] a (name.toList, v) = d.into a v := by
  have found : Decoder.fieldOf [(name, d)] name.toList = some d := by
    rw [Decoder.fieldOf, List.find?_singleton, if_pos (decide_eq_true rfl)]
    rfl
  rw [Decoder.member, found]

omit [Recognizer] [Marshaller] in
/-- A configuration and a state are read one after the other. -/
theorem struct_members {α : Type} {fields : List (String × Decoder α)} {a b c : α} {m : Meta}
    (config : Decoder.member fields a ("config".toList, m.config) = some b) (state : Decoder.member fields b ("state".toList, m.state) = some c) :
    (Decoder.struct fields).into a (.object m.members) = some c := by
  change (Decoder.member fields a ("config".toList, m.config) >>= fun b => Decoder.member fields b ("state".toList, m.state) >>= pure) = some c
  rw [config, Option.bind_eq_bind, Option.bind_some, state]
  rfl

omit [Marshaller] in
/-- An answer of a configuration and a state, and nothing else, is no error. -/
theorem apiError_members {text : List UInt8} {m : Meta} (read : json.unmarshal text = some (.object m.members)) : apiError text = none := by
  have config : foldName "config".toList ≠ foldName "error".toList := by
    change "CONFIG".toList ≠ "ERROR".toList
    decide
  have state : foldName "state".toList ≠ foldName "error".toList := by
    change "STATE".toList ≠ "ERROR".toList
    decide
  rw [apiError, read, Option.bind_some, struct_members (member_other config _ _ _) (member_other state _ _ _)]
  rfl

omit [Marshaller] in
theorem metaOf_members {text : List UInt8} {m : Meta} (read : json.unmarshal text = some (.object m.members)) : metaOf text = some m := by
  have config : Decoder.member metaFields {} ("config".toList, m.config) = some { config := m.config } := rfl
  have state : Decoder.member metaFields { config := m.config } ("state".toList, m.state) = some m := rfl
  rw [metaOf, read, Option.bind_some, struct_members config state]

/-- A backup is of a snapshot that was completed. -/
theorem completed_of_backup {s : Snapshot} {archive : A} (made : backup s = .ok archive) : ∃ m chunks, Completed s m chunks ∧
    archive = Archives.write [(backupMetaFile, Marshaller.indent m), (backupDataName s.version, chunks.flatten)] := by
  unfold backup snapshotToZip at made
  cases answer : s.answer with
  | error e =>
    rw [answer] at made
    cases made
  | ok resp =>
    rw [answer] at made
    dsimp only at made
    cases fine : apiError resp with
    | some e =>
      rw [fine] at made
      cases made
    | none =>
      rw [fine] at made
      dsimp only at made
      cases read : metaOf resp with
      | none =>
        rw [read] at made
        cases made
      | some m =>
        rw [read] at made
        dsimp only at made
        cases received : (receive s.arrivals).2 with
        | error e =>
          rw [received] at made
          cases made
        | ok data =>
          rw [received] at made
          obtain ⟨msgs, last, rest, whole, some, ends, ended, rfl⟩ := receive_iff.mp received
          exact ⟨m, msgs.map Msg.data, ⟨⟨resp, answer, fine, read⟩, ⟨msgs, last, rest, whole, rfl, ends, ended⟩,
            List.forall_mem_map.mpr some⟩, (Except.ok.inj made).symm⟩

/-- A snapshot that was completed is backed up. -/
theorem backup_of_completed {s : Snapshot} {m : Meta} {chunks : List (List UInt8)} (completed : Completed s m chunks) :
    backup s = .ok (Archives.write [(backupMetaFile, Marshaller.indent m), (backupDataName s.version, chunks.flatten)] : A) := by
  obtain ⟨⟨resp, answer, fine, read⟩, ⟨msgs, last, rest, whole, rfl, ends, ended⟩, nonempty⟩ := completed
  have filled : ∀ msg ∈ msgs, msg.data ≠ [] := fun msg there => nonempty _ (List.mem_map_of_mem there)
  have received := receive_iff.mpr ⟨msgs, last, rest, whole, filled, ends, ended, rfl⟩
  unfold backup snapshotToZip
  simp only [answer, fine, read, received]

omit [Recognizer] [Folding] [Marshaller] in
/-- The two files are told apart by their names. -/
theorem pick_written (version : Str) (metadata data : List UInt8) :
    pick [(backupMetaFile, metadata), (backupDataName version, data)] none none = .ok (some metadata, some data) := by
  have named : backupDataName version = backupDataFile ∨ backupDataName version = backupLegacyDataFile := by
    unfold backupDataName
    split
    · split
      · exact .inl rfl
      · exact .inr rfl
    · exact .inr rfl
  have apart : backupDataName version ≠ backupMetaFile := by
    rcases named with same | same <;> rw [same] <;> decide
  rw [pick, if_pos rfl, pick, if_neg apart, if_pos named, if_neg (by decide)]
  rfl

omit [Marshaller] in
theorem restoreNamed_spec {m : Meta} {metaJSON : List UInt8} (read : json.unmarshal metaJSON = some (.object m.members)) (t : Target)
    (name : Str) (data : List UInt8) : ∃ whole, Restores m data whole ∧ (restoreNamed t name metaJSON data).1 <+: whole ∧
      (t.Accepts → (restoreNamed t name metaJSON data).1 = whole) := by
  -- the chunks, if the server names a subject for them
  have planned (subject : Str) := upload_spec t subject 0 data
  have only : ∃ whole, Restores m data whole ∧ [Request.restore name metaJSON] <+: whole := by
    obtain ⟨chunks, each, flat, -⟩ := planned []
    exact ⟨_, ⟨name, metaJSON, [], chunks, rfl, read, each, flat⟩, _, rfl⟩
  unfold restoreNamed
  dsimp only
  split
  · next e refused =>
    obtain ⟨whole, restores, begins⟩ := only
    refine ⟨whole, restores, begins, fun accepts => ?_⟩
    obtain ⟨resp, subject, taken, -⟩ := accepts.restore name metaJSON
    rw [refused] at taken
    cases taken
  · next resp answered =>
    split
    · next e refused =>
      obtain ⟨whole, restores, begins⟩ := only
      refine ⟨whole, restores, begins, fun accepts => ?_⟩
      obtain ⟨resp', subject, taken, fine, -⟩ := accepts.restore name metaJSON
      obtain rfl := Except.ok.inj (answered.symm.trans taken)
      rw [refused] at fine
      cases fine
    · next fine =>
      split
      · next unnamed =>
        obtain ⟨whole, restores, begins⟩ := only
        refine ⟨whole, restores, begins, fun accepts => ?_⟩
        obtain ⟨resp', subject, taken, -, named, -⟩ := accepts.restore name metaJSON
        obtain rfl := Except.ok.inj (answered.symm.trans taken)
        rw [unnamed] at named
        cases named
      · next empty =>
        obtain ⟨whole, restores, begins⟩ := only
        refine ⟨whole, restores, begins, fun accepts => ?_⟩
        obtain ⟨resp', subject, taken, -, named, some⟩ := accepts.restore name metaJSON
        obtain rfl := Except.ok.inj (answered.symm.trans taken)
        exact absurd (Option.some.inj (named.symm.trans empty)) some
      · next subject _ named =>
        obtain ⟨chunks, each, flat, begins, done, accepted⟩ := planned subject
        refine ⟨.restore name metaJSON :: chunks.map (.chunk subject) ++ [.chunk subject []],
          ⟨name, metaJSON, subject, chunks, rfl, read, each, flat⟩, ?_⟩
        split
        · next sent e failed =>
          rw [failed] at begins accepted
          exact ⟨((List.prefix_cons_inj _).mpr begins).trans (List.prefix_append _ _), fun accepts => nomatch accepted accepts⟩
        · next sent finished =>
          rw [finished] at done
          obtain rfl := done rfl
          exact ⟨List.prefix_rfl, fun _ => rfl⟩

/-- What Unmarshal reads of what MarshalIndent wrote of a snapshot's configuration and state are these. -/
def Indents : Prop := ∀ resp m, metaOf resp = some m → json.unmarshal (Marshaller.indent m) = some (.object m.members)

omit [Marshaller] in
/-- A backup comes to its two files. -/
theorem restore_written {archive : A} {version : Str} {metadata data : List UInt8}
    (same : archive = Archives.write [(backupMetaFile, metadata), (backupDataName version, data)])
    (fits : Archives.size archive ≤ restoreMaxBytes) (t : Target) : restore t archive = restoreFiles t metadata data := by
  rw [restore, if_neg (not_lt.mpr fits), same, Archives.read_write]
  dsimp only
  rw [pick_written]

omit [Marshaller] in
/-- Metadata that is cut off before its end names no stream. -/
theorem restoreFiles_unnamed {metadata data : List UInt8} {t : Target} (cut : streamName (metadata.take metaMaxBytes) = none) :
    (restoreFiles t metadata data).1 = [] := by
  rw [restoreFiles, cut]

end Decoding

section Sample

/-- An archive that is its files. -/
@[reducible] def plainFiles : Archives (List (Str × List UInt8)) where
  write := id
  read := .ok
  size files := (files.map fun f => f.2.length).sum
  read_write _ := rfl

@[reducible] def plainFolding : Folding := { foldRune := id }

/-- A configuration with a description of `n` letters. -/
def sampleMeta (n : ℕ) : Meta where
  config := .object [("name".toList, .string ['S']), ("description".toList, .string (List.replicate n 'x'))]
  state := .object []

def replyText (n : ℕ) : List UInt8 :=
  utf8 "\x7b\"config\":\x7b\"name\":\"S\",\"description\":\"".toList ++ List.replicate n 120 ++ utf8 "\"\x7d,\"state\":\x7b\x7d\x7d".toList

def indentedText (n : ℕ) : List UInt8 :=
  utf8 "\x7b\n  \"config\": \x7b\n    \"name\": \"S\",\n    \"description\": \"".toList ++ List.replicate n 120 ++
    utf8 "\"\n  \x7d,\n  \"state\": \x7b\x7d\n\x7d".toList

/-- A recognizer that knows the two texts of a document. -/
@[reducible] def sampleRecognizer (n : ℕ) : Recognizer where
  value text := if text = replyText n ∨ text = indentedText n then some (.object (sampleMeta n).members, []) else none
  foldName := id

theorem replyText_length (n : ℕ) : n < (replyText n).length := by
  have some : 0 < (utf8 "\x7b\"config\":\x7b\"name\":\"S\",\"description\":\"".toList).length := by decide
  rw [replyText, List.length_append, List.length_append, List.length_replicate]
  omega

theorem indentedText_length (n : ℕ) : n < (indentedText n).length := by
  have some : 0 < (utf8 "\x7b\n  \"config\": \x7b\n    \"name\": \"S\",\n    \"description\": \"".toList).length := by decide
  rw [indentedText, List.length_append, List.length_append, List.length_replicate]
  omega

@[reducible] def sampleMarshaller (n : ℕ) : Marshaller := { indent := fun _ => indentedText n, refusal := fun _ => [] }

/-- A snapshot of two chunks. -/
def sampleSnapshot (n : ℕ) : Snapshot where
  version := "2.10.4".toList
  answer := .ok (replyText n)
  arrivals := [.message { data := [1, 2], reply := ['r'] }, .message { data := [3] }, .message { data := [], status := "204".toList }]

theorem sample_known {n : ℕ} {text : List UInt8} (known : text = replyText n ∨ text = indentedText n) :
    @json.unmarshal (sampleRecognizer n) text = some (.object (sampleMeta n).members) := by
  have value : (sampleRecognizer n).value text = some (.object (sampleMeta n).members, []) := if_pos known
  unfold json.unmarshal
  rw [value]
  rfl

theorem sample_unknown {n : ℕ} {text : List UInt8} (unknown : ¬ (text = replyText n ∨ text = indentedText n)) :
    @json.unmarshal (sampleRecognizer n) text = none := by
  have value : (sampleRecognizer n).value text = none := if_neg unknown
  unfold json.unmarshal
  rw [value]

theorem sample_indents (n : ℕ) : @Indents (sampleRecognizer n) plainFolding (sampleMarshaller n) := by
  let _ := sampleRecognizer n
  let _ := plainFolding
  intro resp m found
  by_cases known : resp = replyText n ∨ resp = indentedText n
  · obtain rfl : m = sampleMeta n := Option.some.inj (found.symm.trans (metaOf_members (sample_known known)))
    exact sample_known (.inr rfl)
  · rw [metaOf, sample_unknown known] at found
    cases found

theorem sample_backup (n : ℕ) : @backup (sampleRecognizer n) plainFolding _ plainFiles (sampleMarshaller n) (sampleSnapshot n) =
    .ok [(backupMetaFile, indentedText n), (backupLegacyDataFile, [1, 2, 3])] := by
  let _ := sampleRecognizer n
  let _ := plainFolding
  have read := sample_known (.inl rfl : replyText n = replyText n ∨ replyText n = indentedText n)
  have answered : ∃ resp, (sampleSnapshot n).answer = .ok resp ∧ apiError resp = none ∧ metaOf resp = some (sampleMeta n) :=
    ⟨replyText n, rfl, apiError_members read, metaOf_members read⟩
  have arrived : ∃ (msgs : List Msg) (last : Msg) (rest : List Arrival),
      (sampleSnapshot n).arrivals = msgs.map .message ++ .message last :: rest ∧
        msgs.map Msg.data = [[1, 2], [3]] ∧ last.data = [] ∧ (last.status = [] ∨ strings.contains last.status "204".toList) :=
    ⟨[{ data := [1, 2], reply := ['r'] }, { data := [3] }], { data := [], status := "204".toList }, [], rfl, rfl, rfl, .inr (by decide)⟩
  have completed : Completed (sampleSnapshot n) (sampleMeta n) [[1, 2], [3]] := ⟨answered, arrived, by decide⟩
  exact @backup_of_completed _ _ _ plainFiles (sampleMarshaller n) _ _ _ completed

end Sample
end NatsExplorer.Handler.StreamBackup
