import NatsExplorer.Message

/-! Payload expressions (`internal/filter`). What a compiled expression answers
is up to the expression library, so a program is any pair of predicates and
`Compile` any function that yields one or an error text. -/
namespace NatsExplorer.Filter
open Go

structure Program where
  /-- `Match` on a record and `MatchMessage` on its wire form. -/
  onRecord : Record → Bool
  onMessage : NatsMessage → Bool

class Compiler where
  compile : Str → Except Str Program

/-- The messages a program keeps, at most `limit` of them when it is positive. -/
def keep (p : Option Program) (msgs : List NatsMessage) (limit : Nat) : List NatsMessage :=
  match p with
  | none => if 0 < limit ∧ limit < msgs.length then msgs.take limit else msgs
  | some p => (if 0 < limit then (msgs.filter p.onMessage).take limit else msgs.filter p.onMessage)

end NatsExplorer.Filter
