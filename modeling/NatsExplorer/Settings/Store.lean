import NatsExplorer.Go.Json
import NatsExplorer.Library.Faults

/-! The settings of an installation that keeps its own (`internal/settings`): entries
in a file, and the credentials of saved connections split off into a secret store. A JSON
text is the value it decodes to. -/
namespace NatsExplorer.Settings
open Go

/-- `none` is a text that is no JSON. -/
abbrev Text := Option json.Value

abbrev Entries := Map Str json.Value
abbrev Secrets := Map Str Text

def connectionsKey : Str := "ne.connections.v2".toList
def secretPrefix : Str := "conn:".toList

def secretFields : List Str :=
  ["token", "pass", "nkeySeed", "creds", "tlsKey", "sysToken", "sysPass", "sysNkeySeed", "sysCreds", "sshPassword",
    "sshKey", "sshPassphrase"].map String.toList

def keyChar (c : Char) : Bool :=
  ('A' ≤ c && c ≤ 'Z') || ('a' ≤ c && c ≤ 'z') || ('0' ≤ c && c ≤ '9') || c = '_' || c = '.' || c = '-'

/-- `^ne\.[A-Za-z0-9_.-]{1,64}$` -/
def keyPattern (key : Str) : Bool :=
  key.take 3 = ['n', 'e', '.'] && (key.drop 3).all keyChar && 1 ≤ (key.drop 3).length && (key.drop 3).length ≤ 64

/-- The map behind a saved connection; `none` is one that is `null`. -/
abbrev Connection := Option Entries

def insertAll (c : Entries) (fields : List (Str × json.Value)) : Entries :=
  fields.foldl (fun c field => c.insert field.1 field.2) c

/-- The last value of a key counts. -/
def parseObject (fields : List (Str × json.Value)) : Entries := insertAll ∅ fields

def fieldsOf (c : Entries) : List (Str × json.Value) := c.entries.map fun field => (field.1, field.2)

/-- Keys are sorted. -/
def marshalObject (c : Entries) : json.Value := .object ((fieldsOf c).mergeSort fun a b => a.1 ≤ b.1)

def parseConnection : json.Value → Option Connection
  | .null => some none
  | .object fields => some (some (parseObject fields))
  | _ => none

def parseConnections : json.Value → Except String (List Connection)
  | .null => .ok []
  | .array items =>
    match items.mapM parseConnection with
    | some conns => .ok conns
    | none => .error "connections must be a JSON array of objects"
  | _ => .error "connections must be a JSON array of objects"

def marshalConnection : Connection → json.Value
  | none => .null
  | some c => marshalObject c

def marshalConnections (conns : List Connection) : json.Value := .array (conns.map marshalConnection)

/-- Empty where there is no string. -/
def idOf (c : Connection) : Str :=
  match c.bind (·.lookup "id".toList) with
  | some (.string id) => id
  | _ => []

/-- A value that decodes to the empty string. -/
def emptyCredential : json.Value → Bool
  | .null => true
  | .string [] => true
  | _ => false

/-- Takes one field of the connection out, to the secrets where it is not empty. -/
def takeSecret (taken : Entries × Entries) (f : Str) : Entries × Entries :=
  match taken.1.lookup f with
  | none => taken
  | some v => (taken.1.erase f, if emptyCredential v then taken.2 else taken.2.insert f v)

/-- The connection without its credentials, and those that are not empty. -/
def takeSecrets (fields : List Str) (c : Entries) : Entries × Entries := fields.foldl takeSecret (c, ∅)

/-- What the secret store is asked to do. -/
inductive Operation where
  | set (key : Str) (value : Text)
  | delete (key : Str)

namespace Operation

def key : Operation → Str
  | set key _ => key
  | delete key => key

def act : Operation → Secrets → Secrets
  | set key value, secrets => secrets.insert key value
  | delete key, secrets => secrets.erase key

def wrap : Operation → String → String
  | set .., e => "storing credentials: " ++ e
  | delete _, e => e

end Operation

abbrev Run (α : Type) := Faults.Run Secrets String α

def Operation.perform (op : Operation) : Run Unit := EStateM.adaptExcept op.wrap (Faults.update op.act)

/-- The connection without its credentials; one without an id stays as it is. -/
def splitConnection (c : Connection) : Run Connection :=
  match c with
  | none => pure none
  | some entries => do
    if idOf c = [] then pure c
    else
      let (stripped, secrets) := takeSecrets secretFields entries
      if secrets.entries = [] then Operation.perform (.delete (secretPrefix ++ idOf c))
      else Operation.perform (.set (secretPrefix ++ idOf c) (some (marshalObject secrets)))
      pure (some stripped)

/-- Those that are there. -/
def idsOf (conns : List Connection) : List Str := (conns.map idOf).filter (· ≠ [])

/-- Of a value that is no list of connections, none. -/
def connectionIDs (raw : Option json.Value) : List Str :=
  match raw.map parseConnections with
  | some (.ok conns) => (idsOf conns).mergeSort (· ≤ ·)
  | _ => []

/-- Moves the credentials of the connections into the secret store, and deletes those of
the connections that are gone. -/
def splitSecrets (current : Option json.Value) (raw : json.Value) : Run json.Value :=
  match parseConnections raw with
  | .error e => throw e
  | .ok conns => do
    let stripped ← conns.mapM splitConnection
    forM (connectionIDs current) fun id => do
      if id ∉ idsOf conns then Operation.perform (.delete (secretPrefix ++ id))
    pure (marshalConnections stripped)

/-- A connection with what the secret store has for it; a secret that cannot be read
leaves it without. -/
def mergeConnection (secrets : Secrets) (c : Connection) : Connection :=
  match c with
  | none => none
  | some entries =>
    if idOf c = [] then c
    else
      match secrets.lookup (secretPrefix ++ idOf c) with
      | some (some (.object fields)) => some (insertAll entries (fieldsOf (parseObject fields)))
      | _ => c

def mergeSecrets (secrets : Secrets) (raw : json.Value) : Except String json.Value := do
  return marshalConnections ((← parseConnections raw).map (mergeConnection secrets))

/-- `entries` is the document in memory, `file` the one on disk, where there is one. -/
structure Store where
  entries : Entries
  file : Option Entries
  secrets : Secrets

/-- What the operations of a call on the secret store fail with, and the writing of the file. -/
structure Failures where
  secrets : List (Option String) := []
  save : Option String := none

namespace Store

/-- `Open` on what a process finds. -/
def openStore (file : Option Entries) (secrets : Secrets) : Store where
  entries := file.getD ∅
  file := file
  secrets := secrets

def get (s : Store) (key : Str) : Option json.Value := s.entries.lookup key

/-- Every entry, connections with their credentials. -/
def all (s : Store) : Except String Entries :=
  match s.entries.lookup connectionsKey with
  | none => .ok s.entries
  | some raw => do return s.entries.insert connectionsKey (← mergeSecrets s.secrets raw)

/-- The file is replaced as a whole, or not at all. -/
def save (s : Store) (failure : Option String) : Option String × Store :=
  match failure with
  | some e => (some e, s)
  | none => (none, { s with file := some s.entries })

/-- Stores one entry. -/
def set (s : Store) (f : Failures) (key : Str) (value : Text) : Option String × Store :=
  if !keyPattern key then (some ("invalid settings key \"" ++ String.ofList key ++ "\""), s)
  else
    match value with
    | none => (some ("value for " ++ String.ofList key ++ " is not valid JSON"), s)
    | some value =>
      if key = connectionsKey then
        match splitSecrets (s.get key) value ⟨s.secrets, f.secrets⟩ with
        | .error e world => (some e, { s with secrets := world.state })
        | .ok stripped world =>
          save { s with secrets := world.state, entries := s.entries.insert key stripped } f.save
      else save { s with entries := s.entries.insert key value } f.save

def delete (s : Store) (f : Failures) (key : Str) : Option String × Store :=
  if key = connectionsKey then
    match forM (connectionIDs (s.get key)) (fun id => Operation.perform (.delete (secretPrefix ++ id)))
        ⟨s.secrets, f.secrets⟩ with
    | .error e world => (some e, { s with secrets := world.state })
    | .ok _ world => save { s with secrets := world.state, entries := s.entries.erase key } f.save
  else save { s with entries := s.entries.erase key } f.save

end Store
end NatsExplorer.Settings
