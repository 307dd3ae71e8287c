import NatsExplorer.Go.Text

/-! A received message as the server keeps it (`internal/message`), and the wire
form the browser gets. A payload is either valid UTF-8, kept as its runes, or
the bytes that are not. -/
namespace NatsExplorer
open Go

inductive Data where
  | text (runes : Str)
  | binary (bytes : List UInt8)
  deriving DecidableEq, Repr

def Data.length : Data → Nat
  | .text runes => byteLen runes
  | .binary bytes => bytes.length

abbrev Header := List (Str × List Str)

structure Record where
  subject : Str
  data : Data
  header : Header := []
  reply : Str := []
  timestamp : Int
  sequence : Nat
  hash : Nat := 0
  deriving DecidableEq, Repr

inductive Kind where
  | string
  | json
  | binary
  deriving DecidableEq, Repr

namespace Record

def kind [Tables] (r : Record) : Kind :=
  match r.data with
  | .binary _ => .binary
  | .text runes =>
    if (runes.head? = some '{' ∨ runes.head? = some '[') ∧ Tables.jsonValid runes then .json
    else .string

/-- The memory a record occupies in the history, for its budget. -/
def bytes (r : Record) : Nat :=
  byteLen r.subject + r.data.length + byteLen r.reply + 320 +
    (r.header.map fun (k, vals) =>
      byteLen k + 32 + (vals.map fun v => byteLen v + 16).sum).sum

theorem bytes_ge (r : Record) : 320 ≤ r.bytes := by
  unfold bytes
  omega

end Record

/-- `base64.StdEncoding` -/
def base64 : List UInt8 → Str
  | [] => []
  | [a] => [digit (a.toNat / 4), digit (a.toNat % 4 * 16), '=', '=']
  | [a, b] => [digit (a.toNat / 4), digit (a.toNat % 4 * 16 + b.toNat / 16),
      digit (b.toNat % 16 * 4), '=']
  | a :: b :: c :: rest => digit (a.toNat / 4) :: digit (a.toNat % 4 * 16 + b.toNat / 16) ::
      digit (b.toNat % 16 * 4 + c.toNat / 64) :: digit (c.toNat % 64) :: base64 rest
where
  digit (n : Nat) : Char :=
    if n < 26 then Char.ofNat (65 + n)
    else if n < 52 then Char.ofNat (71 + n)
    else if n < 62 then Char.ofNat (n - 4)
    else if n = 62 then '+' else '/'

/-- The wire format sent to the browser. -/
structure NatsMessage where
  subject : Str
  payload : Str
  payloadType : Kind
  headers : Header
  timestamp : Int
  reply : Str
  size : Nat
  sequence : Nat
  connID : Str
  deriving DecidableEq, Repr

namespace Record
variable [Tables]

def text (r : Record) : Str :=
  match r.data with
  | .text runes => runes
  | .binary bytes => base64 bytes

def wire (r : Record) (connID : Str) : NatsMessage where
  subject := r.subject
  payload := r.text
  payloadType := r.kind
  headers := r.header
  timestamp := r.timestamp
  reply := r.reply
  size := r.data.length
  sequence := r.sequence
  connID := connID

end Record
end NatsExplorer
