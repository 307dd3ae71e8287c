import NatsExplorer.History.Queries
import NatsExplorer.Message.Payload
import NatsExplorer.Subscription.Handoff

/-! What becomes of a message on its way through the database and through a support
bundle (`feature_bundle.go`, `internal/subscription/offline.go`). -/
namespace NatsExplorer.Bundle
open Go History Subscription

/-- The JSON form of a message, which leaves empty fields out. -/
structure Line where
  subject : Str
  payload : Str
  payloadType : Kind
  headers : Option Header
  timestamp : Int
  reply : Option Str
  size : Nat
  sequence : Option Nat
  connId : Option Str

/-- `encoding/json` on a line. -/
class LineCodec where
  marshal : Line → Str
  unmarshal : Str → Option Line
  unmarshal_marshal (l : Line) : unmarshal (marshal l) = some l

def omitEmpty {α : Type} [DecidableEq α] (zero a : α) : Option α := if a = zero then none else some a

theorem omitEmpty_getD {α : Type} [DecidableEq α] (zero a : α) : (omitEmpty zero a).getD zero = a := by
  unfold omitEmpty
  split
  · rename_i empty
    exact empty.symm
  · rfl

def toLine (m : NatsMessage) : Line where
  subject := m.subject
  payload := m.payload
  payloadType := m.payloadType
  headers := omitEmpty [] m.headers
  timestamp := m.timestamp
  reply := omitEmpty [] m.reply
  size := m.size
  sequence := omitEmpty 0 m.sequence
  connId := omitEmpty [] m.connID

def ofLine (l : Line) : NatsMessage where
  subject := l.subject
  payload := l.payload
  payloadType := l.payloadType
  headers := l.headers.getD []
  timestamp := l.timestamp
  reply := l.reply.getD []
  size := l.size
  sequence := l.sequence.getD 0
  connID := l.connId.getD []

@[simp] theorem ofLine_toLine (m : NatsMessage) : ofLine (toLine m) = m := by
  simp only [ofLine, toLine, omitEmpty_getD]

section Lines
variable [LineCodec]

/-- The lines of `messages.jsonl`. -/
def exportLines (msgs : List NatsMessage) : List Str := msgs.map fun m => LineCodec.marshal (toLine m)

/-- What the buffer of the scanner holds, the end of the line included. -/
def maxLine : Nat := 16 * 2 ^ 20

def bundleMaxMessages : Nat := 1000000

/-- The scanner stops at a line it cannot hold. -/
def scanLines : List Str → List Str
  | [] => []
  | text :: rest => if byteLen text + 1 ≤ maxLine then text :: scanLines rest else []

def readLine (text : Str) : Option NatsMessage :=
  match LineCodec.unmarshal text with
  | some l => if (ofLine l).subject ≠ [] then some (ofLine l) else none
  | none => none

/-- The messages `importBundle` reads. -/
def importLines (lines : List Str) : List NatsMessage :=
  ((scanLines lines).filterMap readLine).take bundleMaxMessages

/-- A message whose line survives. -/
def Portable (m : NatsMessage) : Prop :=
  m.subject ≠ [] ∧ byteLen (LineCodec.marshal (toLine m)) + 1 ≤ maxLine

theorem readLine_export (m : NatsMessage) :
    readLine (LineCodec.marshal (toLine m)) = if m.subject ≠ [] then some m else none := by
  unfold readLine
  simp only [LineCodec.unmarshal_marshal, ofLine_toLine]

/-- Lines get lost, and nothing else happens to them. -/
theorem scan_sublist (msgs : List NatsMessage) :
    ((scanLines (exportLines msgs)).filterMap readLine).Sublist msgs := by
  induction msgs with
  | nil => exact List.Sublist.slnil
  | cons m msgs ih =>
    rw [exportLines, List.map_cons, scanLines]
    split
    · rw [List.filterMap_cons, readLine_export]
      by_cases named : m.subject ≠ []
      · rw [if_pos named]
        exact ih.cons_cons m
      · rw [if_neg named]
        exact ih.cons m
    · exact List.nil_sublist _

theorem import_sublist (msgs : List NatsMessage) : (importLines (exportLines msgs)).Sublist msgs :=
  (List.take_sublist _ _).trans (scan_sublist msgs)

/-- All messages come back where all of them can. -/
theorem scan_export_iff (msgs : List NatsMessage) :
    (scanLines (exportLines msgs)).filterMap readLine = msgs ↔ ∀ m ∈ msgs, Portable m := by
  induction msgs with
  | nil => exact ⟨nofun, fun _ => rfl⟩
  | cons m msgs ih =>
    rw [List.forall_mem_cons, ← ih, exportLines, List.map_cons, scanLines]
    by_cases fits : byteLen (LineCodec.marshal (toLine m)) + 1 ≤ maxLine
    · rw [if_pos fits, List.filterMap_cons, readLine_export]
      by_cases named : m.subject ≠ []
      · rw [if_pos named]
        exact ⟨fun same => ⟨⟨named, fits⟩, (List.cons.inj same).2⟩, fun ⟨_, same⟩ => congrArg (m :: ·) same⟩
      · rw [if_neg named]
        refine ⟨fun same => ?_, fun ⟨portable, _⟩ => absurd portable.1 named⟩
        -- a message is missing, so the list is too short
        have short := (scan_sublist msgs).length_le
        have longer := congrArg List.length same
        rw [List.length_cons] at longer
        exact absurd (longer.symm.trans_le short) (Nat.not_succ_le_self _)
    · rw [if_neg fits]
      exact ⟨nofun, fun ⟨portable, _⟩ => absurd portable.2 fits⟩

theorem import_export_iff (msgs : List NatsMessage) :
    importLines (exportLines msgs) = msgs ↔ msgs.length ≤ bundleMaxMessages ∧ ∀ m ∈ msgs, Portable m := by
  rw [← scan_export_iff]
  unfold importLines
  constructor
  · intro same
    have few : msgs.length ≤ bundleMaxMessages := by
      rw [← same]
      exact List.length_take_le _ _
    rw [List.take_of_length_le ((scan_sublist msgs).length_le.trans few)] at same
    exact ⟨few, same⟩
  · rintro ⟨few, same⟩
    rw [same, List.take_of_length_le few]

end Lines

/-- A message with the bytes it arrived with. -/
structure Arrival where
  subject : Str
  data : List UInt8
  header : Header
  reply : Str
  seq : Nat
  now : Int

namespace Arrival

def delivery (a : Arrival) : Delivery where
  msg := { subject := a.subject, data := .ofBytes a.data, header := a.header, reply := a.reply }
  seq := a.seq
  now := a.now

def record (subjectHash : Str → Nat) (a : Arrival) : Record :=
  newRecord subjectHash a.delivery.msg a.delivery.seq a.delivery.now

end Arrival

section RoundTrip
variable [Tables]

/-- What `Ingest` hands to the workers. A message without a number or a time gets one. -/
def ingest (clock : Nat → Int) (totalRecv : Nat) : List NatsMessage → List Arrival
  | [] => []
  | wire :: rest =>
    match decodePayload wire.payload wire.payloadType with
    | none => ingest clock totalRecv rest
    | some data =>
      { subject := wire.subject
        data := data
        header := wire.headers
        reply := wire.reply
        seq := if wire.sequence = 0 then totalRecv + 1 else wire.sequence
        now := if wire.timestamp = 0 then clock totalRecv else wire.timestamp } ::
      ingest clock (totalRecv + 1) rest

variable {subjectHash : Str → Nat} {connID : Str} {clock : Nat → Int} {arrivals : List Arrival}

/-- Ingesting the wire form of a message delivers the message. -/
theorem ingest_wire (totalRecv : Nat) (numbered : ∀ a ∈ arrivals, a.now ≠ 0 ∧ a.seq ≠ 0) :
    ingest clock totalRecv (arrivals.map fun a => (a.record subjectHash).wire connID) = arrivals := by
  induction arrivals generalizing totalRecv with
  | nil => rfl
  | cons a arrivals ih =>
    obtain ⟨⟨time, number⟩, others⟩ := List.forall_mem_cons.mp numbered
    let wire := (a.record subjectHash).wire connID
    have decoded : decodePayload wire.payload wire.payloadType = some a.data := decodePayload_wire rfl connID
    have timed : (if wire.timestamp = 0 then clock totalRecv else wire.timestamp) = a.now := if_neg time
    have counted : (if wire.sequence = 0 then totalRecv + 1 else wire.sequence) = a.seq := if_neg number
    rw [List.map_cons, ingest, decoded]
    dsimp only
    rw [ih _ others, timed, counted]
    rfl

omit [Tables] in
theorem ingest_length_le (totalRecv : Nat) (msgs : List NatsMessage) :
    (ingest clock totalRecv msgs).length ≤ msgs.length := by
  induction msgs generalizing totalRecv with
  | nil => exact le_rfl
  | cons wire msgs ih =>
    rw [ingest]
    split
    · exact (ih _).trans (Nat.le_succ _)
    · exact Nat.succ_le_succ (ih _)

variable [Tokenizer]

/-- The messages of one batch, inserted and scanned again. -/
def readBack (f : File) (connID : Str) (batch : List Record) : List NatsMessage :=
  ((f.insert (batch.map fun r => (connID, r))).rows.drop f.rows.length).map fun row => row.record.wire connID

theorem insert_rows (connID : Str) (f : File) (batch : List Record) :
    ∃ added : List Row, (f.insert (batch.map fun r => (connID, r))).rows = f.rows ++ added ∧
      added.map Row.record = batch.map Record.stored := by
  induction batch generalizing f with
  | nil => exact ⟨[], (List.append_nil _).symm, rfl⟩
  | cons r batch ih =>
    obtain ⟨added, rows, records⟩ := ih (f.insertRow (connID, r))
    refine ⟨Row.ofRecord f.nextId connID r :: added, ?_, ?_⟩
    · rw [List.map_cons, File.insert, List.foldl_cons]
      exact rows.trans (List.append_assoc f.rows [_] added)
    · rw [List.map_cons, List.map_cons, records]
      refine congrArg (· :: _) ?_
      unfold Row.ofRecord Row.record Record.stored
      dsimp only
      cases r.header <;> rfl

theorem readBack_eq (f : File) (batch : List Record) :
    readBack f connID batch = batch.map fun r => r.stored.wire connID := by
  obtain ⟨added, rows, records⟩ := insert_rows connID f batch
  unfold readBack
  rw [rows, List.drop_left, ← Function.comp_def (Record.wire · connID), ← List.map_map, records, List.map_map]
  rfl

variable [LineCodec]

/-- The messages of a bundle, exported and opened again. -/
def reopen (subjectHash : Str → Nat) (clock : Nat → Int) (connID : Str) (msgs : List NatsMessage) : List NatsMessage :=
  (ingest clock 0 (importLines (exportLines msgs))).map fun a => (a.record subjectHash).wire connID

omit [Tokenizer] in
/-- A bundle brings its messages back exactly where its lines do. -/
theorem reopen_iff (numbered : ∀ a ∈ arrivals, a.now ≠ 0 ∧ a.seq ≠ 0) :
    reopen subjectHash clock connID (arrivals.map fun a => (a.record subjectHash).wire connID) =
        (arrivals.map fun a => (a.record subjectHash).wire connID) ↔
      arrivals.length ≤ bundleMaxMessages ∧ ∀ a ∈ arrivals, Portable ((a.record subjectHash).wire connID) := by
  let wires := arrivals.map fun a => (a.record subjectHash).wire connID
  have counted : wires.length = arrivals.length := List.length_map ..
  rw [← counted, ← List.forall_mem_map (P := Portable), ← import_export_iff]
  constructor
  · intro same
    refine (import_sublist wires).eq_of_length_le ?_
    have length := congrArg List.length same
    rw [reopen, List.length_map] at length
    exact length.symm.trans_le (ingest_length_le 0 _)
  · intro same
    rw [reopen, same, ingest_wire 0 numbered]

end RoundTrip

/-- A request. -/
def asked : Arrival where
  subject := "a".toList
  data := [49]
  header := []
  reply := "_INBOX.1".toList
  seq := 1
  now := 1000

end NatsExplorer.Bundle
