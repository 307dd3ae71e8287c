import NatsExplorer.Alerts.Active
import NatsExplorer.Library.InternetMessage
import NatsExplorer.Message.Payload

/-! The mail of an alert (`internal/alerts/notify.go`). A line break inside the name of a rule ends its Subject early; without
one the message has its six headers, the headline as its subject and its body. -/
namespace NatsExplorer.Alerts
open Go InternetMessage

def ascii (s : String) : Bytes := utf8 s.toList

def State.text : State → String
  | .firing => "firing"
  | .stale => "stale"
  | .resolved => "resolved"
  | .rate => "rate"
  | .level => "level"
  | .stuck => "stuck"

/-- What a mail has of an event; a preview is cut at any byte. -/
structure Notice where
  time : Int
  ruleName : Bytes
  connID : Bytes
  subject : Bytes
  state : State
  severity : Bytes
  preview : Bytes

/-- The one line every channel starts with. -/
def headline (ev : Notice) : Bytes :=
  let state :=
    match ev.state with
    | .stale => "silent"
    | .resolved => "resolved"
    | state => state.text
  ascii "[" ++ ev.severity ++ ascii "] " ++ ev.ruleName ++ ascii ": " ++ ev.subject ++ ascii " " ++ ascii state

def mailSubject (ev : Notice) : Bytes := headline ev

/-- The time as RFC 3339 is a parameter. -/
def mailBody (rfc3339 : Int → Bytes) (ev : Notice) : Bytes :=
  headline ev ++ ascii "\n\nRule: " ++ ev.ruleName ++ ascii "\nSubject: " ++ ev.subject ++ ascii "\nConnection: " ++ ev.connID ++
    ascii "\nState: " ++ ascii ev.state.text ++ ascii "\nSeverity: " ++ ev.severity ++ ascii "\nTime: " ++ rfc3339 ev.time ++ ascii "\n" ++
    if ev.preview ≠ [] then ascii "\n" ++ ev.preview ++ ascii "\n" else []

structure SMTP where
  host : Str
  user : Str
  from_ : Str
  port : Int

/-- What the server and `net/smtp` say to each step, an error or nothing. -/
structure Client where
  dial : Option Str
  newClient : Option Str
  /-- Nothing also when it is not offered. -/
  startTLS : Option Str
  auth : Option Str
  mail : Str → Option Str
  rcpt : Str → Option Str
  data : Option Str
  write : Option Str
  close : Option Str
  quit : Option Str
  /-- The time as RFC 1123. -/
  date : Bytes

/-- Of `net/smtp`: a command takes no address with a line break. -/
structure Client.Refuses (c : Client) : Prop where
  mail : ∀ a, c.mail a = none → Unbroken (utf8 a)
  rcpt : ∀ a, c.rcpt a = none → Unbroken (utf8 a)

/-- `strings.Join(to, ", ")` -/
def joined (addresses : List Str) : Bytes := List.intercalate (ascii ", ") (addresses.map utf8)

/-- `strings.ReplaceAll(body, "\n", "\r\n")` -/
def replaceLF (body : Bytes) : Bytes := body.flatMap fun c => if c = 10 then [13, 10] else [c]

namespace SMTP

def refused (s : SMTP) (c : Client) (addresses : List Str) : Option Str :=
  let port := if s.port = 0 then 587 else s.port
  c.dial <|> c.newClient <|> (if port ≠ 465 then c.startTLS else none) <|> (if s.user ≠ [] then c.auth else none) <|>
    c.mail s.from_ <|> addresses.findSome? c.rcpt <|> c.data

def message (s : SMTP) (date : Bytes) (addresses : List Str) (subject body : Bytes) : Bytes :=
  ascii "From: " ++ utf8 s.from_ ++ ascii "\r\nTo: " ++ joined addresses ++ ascii "\r\nSubject: " ++ subject ++ ascii "\r\nDate: " ++ date ++
    ascii "\r\nMIME-Version: 1.0\r\nContent-Type: text/plain; charset=utf-8\r\n\r\n" ++ replaceLF body

/-- The text written, and the error. -/
def mailer (s : SMTP) (c : Client) (addresses : List Str) (subject body : Bytes) : Option Bytes × Option Str :=
  match s.refused c addresses with
  | some e => (none, some e)
  | none => (some (s.message c.date addresses subject body), c.write <|> c.close <|> c.quit)

end SMTP

section Sending
variable {F : Type}

/-- The mail in `notify`; without a host there is no mailer. -/
def sendMail (s : SMTP) (c : Client) (rfc3339 : Int → Bytes) (r : Rule F) (ev : Notice) : Option Bytes × Option Str :=
  if r.email = [] then (none, none)
  else if s.host = [] then
    (none, some "email is not configured: set SMTP_HOST, SMTP_FROM and, where needed, SMTP_USER and SMTP_PASS".toList)
  else s.mailer c (recipients r.email) (mailSubject ev) (mailBody rfc3339 ev)

/-- An event of the rule, on a subject as NATS allows. -/
structure Notice.Of (r : Rule F) (ev : Notice) : Prop where
  name : ev.ruleName = utf8 r.name
  severity : ev.severity = utf8 r.severity
  subject : ∀ c ∈ ev.subject, c ≠ 32 ∧ c ≠ 9 ∧ c ≠ 13 ∧ c ≠ 10

end Sending

def headers : List Bytes := ["From", "To", "Subject", "Date", "MIME-Version", "Content-Type"].map ascii

/-- Its lines, each ended as on the wire. -/
def onWire (body : Bytes) : Bytes := List.intercalate crlf (body.splitOn 10)

/-- The text reads as the mail of the event: the six headers once each, the headline and the body. -/
def Intact (rfc3339 : Int → Bytes) (ev : Notice) (text : Bytes) : Prop :=
  ∃ fields body, read text = some (fields, body) ∧ (fields.map Prod.fst).Perm headers ∧
    (ascii "Subject", headline ev) ∈ fields ∧ body = onWire (mailBody rfc3339 ev)

section Texts

theorem intercalate_cons {sep first second : Bytes} {rest : List Bytes} :
    List.intercalate sep (first :: second :: rest) = first ++ (sep ++ List.intercalate sep (second :: rest)) := by
  simp only [List.intercalate, List.intersperse_cons_cons, List.flatten_cons]

theorem replaceLF_onWire (body : Bytes) : replaceLF body = onWire body := by
  unfold onWire
  induction body with
  | nil => rfl
  | cons c body ih =>
    have step : replaceLF (c :: body) = (if c = 10 then [13, 10] else [c]) ++ replaceLF body := rfl
    have lines : (c :: body).splitOn 10 = if c = 10 then [] :: body.splitOn 10 else (body.splitOn 10).modifyHead (c :: ·) := by
      simp only [List.splitOn, List.splitOnP_cons_eq_if_modifyHead, beq_iff_eq]
    rw [step, ih, lines]
    obtain ⟨l, ls, some⟩ := List.exists_cons_of_ne_nil (List.splitOnP_ne_nil (· == 10) body)
    rw [List.splitOn, some]
    split
    · rw [intercalate_cons]
      rfl
    · cases ls with
      | nil => rfl
      | cons next rest => rw [List.modifyHead_cons, intercalate_cons, intercalate_cons]; rfl

variable {s : SMTP} {c : Client} {addresses : List Str} {date subject body : Bytes}

/-- The fields as they are written. -/
def written (s : SMTP) (date : Bytes) (addresses : List Str) (subject : Bytes) : List (Bytes × Bytes) :=
  [(ascii "From", utf8 s.from_), (ascii "To", joined addresses), (ascii "Subject", subject), (ascii "Date", date),
    (ascii "MIME-Version", ascii "1.0"), (ascii "Content-Type", ascii "text/plain; charset=utf-8")]

theorem message_compose : s.message date addresses subject body = compose (written s date addresses subject) (replaceLF body) := by
  have last : ascii "\r\nMIME-Version: 1.0\r\nContent-Type: text/plain; charset=utf-8\r\n\r\n" =
      crlf ++ (lineOf (ascii "MIME-Version", ascii "1.0") ++ crlf ++
        (lineOf (ascii "Content-Type", ascii "text/plain; charset=utf-8") ++ crlf ++ crlf)) := by decide +kernel
  have sender : ascii "From: " = ascii "From" ++ [58, 32] := by decide +kernel
  have receivers : ascii "\r\nTo: " = crlf ++ ascii "To" ++ [58, 32] := by decide +kernel
  have about : ascii "\r\nSubject: " = crlf ++ ascii "Subject" ++ [58, 32] := by decide +kernel
  have time : ascii "\r\nDate: " = crlf ++ ascii "Date" ++ [58, 32] := by decide +kernel
  rw [SMTP.message, last, sender, receivers, about, time]
  simp only [compose, written, lineOf, List.flatMap_cons, List.flatMap_nil, List.append_assoc, List.cons_append, List.nil_append]

theorem joined_unbroken (each : ∀ a ∈ addresses, Unbroken (utf8 a)) : Unbroken (joined addresses) := by
  induction addresses with
  | nil => decide
  | cons a rest ih =>
    obtain ⟨first, later⟩ := List.forall_mem_cons.mp each
    cases rest with
    | nil =>
      have single : joined [a] = utf8 a := List.append_nil _
      rwa [single]
    | cons b rest =>
      have comma : Unbroken (ascii ", ") := by decide
      have step : joined (a :: b :: rest) = utf8 a ++ (ascii ", " ++ joined (b :: rest)) := intercalate_cons
      rw [step]
      exact unbroken_append.mpr ⟨first, unbroken_append.mpr ⟨comma, ih later⟩⟩

theorem named_headers : ∀ name ∈ headers, Named name := by
  have all : ∀ name ∈ headers, name ≠ [] ∧ (∀ c ∈ name, 33 ≤ c ∧ c ≤ 126) ∧ 58 ∉ name := by decide +kernel
  intro name member
  obtain ⟨some, printable, colon⟩ := all name member
  exact { some := some, printable := printable, colon := colon }

/-- A message whose parts have no line break reads as it was meant. -/
theorem read_message (sender : Unbroken (utf8 s.from_)) (receivers : Unbroken (joined addresses)) (about : Unbroken subject)
    (time : Unbroken date) :
    read (s.message date addresses subject body) =
      some ((written s date addresses subject).map fun f => (f.1, f.2.dropWhile blank), replaceLF body) := by
  have names : ∀ f ∈ written s date addresses subject, Named f.1 := fun f member =>
    named_headers f.1 (List.mem_map_of_mem (f := Prod.fst) member)
  have version : Unbroken (ascii "1.0") := by decide
  have type : Unbroken (ascii "text/plain; charset=utf-8") := by decide +kernel
  have values : ∀ f ∈ written s date addresses subject, Unbroken f.2 := by
    simp only [written, List.forall_mem_cons, List.not_mem_nil, false_implies, implies_true, and_true]
    exact ⟨sender, receivers, about, time, version, type⟩
  rw [message_compose]
  exact read_compose names values

end Texts

section Mailed
variable {F : Type} {r r' : Rule F} {ev : Notice} {s : SMTP} {c : Client} {rfc3339 : Int → Bytes} {text : Bytes}

/-- The headline has a line break exactly if the rule's name has one. -/
theorem headline_unbroken (own : ev.Of r') (known : r'.severity ∈ ["info".toList, "warning".toList, "critical".toList]) :
    Unbroken (headline ev) ↔ Unbroken (utf8 r'.name) := by
  have severity : Unbroken ev.severity := by
    rw [own.severity]
    simp only [List.mem_cons, List.not_mem_nil, or_false] at known
    rcases known with same | same | same <;> rw [same] <;> decide
  have subject : Unbroken ev.subject := ⟨fun member => (own.subject _ member).2.2.1 rfl, fun member => (own.subject _ member).2.2.2 rfl⟩
  have opening : Unbroken (ascii "[") := by decide
  have closing : Unbroken (ascii "] ") := by decide
  have colon : Unbroken (ascii ": ") := by decide
  have space : Unbroken (ascii " ") := by decide
  unfold headline
  simp only [unbroken_append, severity, subject, opening, closing, colon, space, own.name, true_and, and_true]
  refine and_iff_left ?_
  cases ev.state <;> decide

theorem headline_start (ev : Notice) : (headline ev).dropWhile blank = headline ev := by
  have start : ∃ rest, headline ev = 91 :: rest := ⟨_, rfl⟩
  obtain ⟨rest, start⟩ := start
  rw [start]
  rfl

theorem refused_none {addresses : List Str} (done : s.refused c addresses = none) :
    c.mail s.from_ = none ∧ ∀ a ∈ addresses, c.rcpt a = none := by
  simp only [SMTP.refused, Option.orElse_eq_none, List.findSome?_eq_none_iff] at done
  obtain ⟨-, -, -, -, mail, rcpt, -⟩ := done
  exact ⟨mail, rcpt⟩

variable [Tables] [Filter.Compiler] [Payloads F]

theorem severity_known (ok : r.validate = .ok r') : r'.severity ∈ ["info".toList, "warning".toList, "critical".toList] := by
  have completed := Rule.validate_completed ok
  unfold Rule.validate at ok
  split at ok
  · cases ok
  · next passed =>
    have none := List.find?_eq_none.mp passed
    by_contra other
    refine none (r.completed.severity ∉ ["info".toList, "warning".toList, "critical".toList],
      "severity ".toList ++ Payloads.quote F r.completed.severity ++ " is not info, warning or critical".toList) ?_ ?_
    · unfold Rule.checks
      simp only [List.mem_append, List.mem_cons, true_or, or_true]
    · rw [← completed]
      exact decide_eq_true other

/-- Of a rule that is accepted, a mail that is written reads as the mail of the event exactly if the rule's name has no line
break. -/
theorem mail_intact (ok : r.validate = .ok r') (own : ev.Of r') (refuses : c.Refuses) (date : Unbroken c.date)
    (sent : (sendMail s c rfc3339 r' ev).1 = some text) : Intact rfc3339 ev text ↔ Unbroken (utf8 r'.name) := by
  rw [← headline_unbroken own (severity_known ok)]
  constructor
  · rintro ⟨fields, body, reads, -, subject, -⟩
    exact read_unbroken reads _ subject
  · intro unbroken
    unfold sendMail at sent
    split at sent
    · cases sent
    split at sent
    · cases sent
    unfold SMTP.mailer at sent
    split at sent
    · cases sent
    · next passed =>
      obtain ⟨sender, receivers⟩ := refused_none passed
      cases sent
      refine ⟨_, _, read_message (refuses.mail _ sender) (joined_unbroken fun a member => refuses.rcpt a (receivers a member)) unbroken date,
        ?_, ?_, replaceLF_onWire _⟩
      · exact List.Perm.refl headers
      · have there : (ascii "Subject", (headline ev).dropWhile blank) ∈
            (written s c.date (recipients r'.email) (mailSubject ev)).map fun f => (f.1, f.2.dropWhile blank) :=
          List.mem_map_of_mem (f := fun f : Bytes × Bytes => (f.1, f.2.dropWhile blank)) (a := (ascii "Subject", headline ev))
            (List.mem_cons_of_mem _ (List.mem_cons_of_mem _ List.mem_cons_self))
        rwa [headline_start] at there

end Mailed

section Sample
open Engine

/-- A relay that takes every address without a line break. -/
def relay : Client where
  dial := none
  newClient := none
  startTLS := none
  auth := none
  mail a := if Unbroken (utf8 a) then none else some ['5', '0', '1']
  rcpt a := if Unbroken (utf8 a) then none else some ['5', '0', '1']
  data := none
  write := none
  close := none
  quit := none
  date := ascii "Mon, 02 Jan 2006 15:04:05 +0000"

theorem relay_refuses : relay.Refuses where
  mail a taken := by
    by_contra broken
    simp only [relay, if_neg broken, reduceCtorEq] at taken
  rcpt a taken := by
    by_contra broken
    simp only [relay, if_neg broken, reduceCtorEq] at taken

def local_ : SMTP := { host := ['h'], user := [], from_ := "a@h".toList, port := 25 }

def silent (name : String) : Rule Int where
  id := ['r']
  name := name.toList
  pattern := ['>']
  email := "x@h".toList
  severity := "warning".toList
  staleAfter := 1
  enabled := true

def silence (name : String) : Notice where
  time := 0
  ruleName := ascii name
  connID := ascii "c"
  subject := ascii "s"
  state := .stale
  severity := ascii "warning"
  preview := [0xFF, 13, 10, 46, 10]

def mailed (name : String) : Bytes := ((sendMail local_ relay (fun _ => []) (silent name) (silence name)).1).getD []

theorem mail_intact_plain : let _ := asciiTables; let _ := yes; let _ := samplePayloads
    Intact (fun _ => []) (silence "no data") (mailed "no data") ↔ Unbroken (utf8 (silent "no data").name) := by
  let _ := asciiTables
  let _ := yes
  let _ := samplePayloads
  have own : (silence "no data").Of (silent "no data") := { name := rfl, severity := rfl, subject := by decide +kernel }
  have ok : (silent "no data").validate = .ok (silent "no data") := by rfl
  have sent : (sendMail local_ relay (fun _ => []) (silent "no data") (silence "no data")).1 = some (mailed "no data") := rfl
  exact mail_intact ok own relay_refuses (by decide +kernel) sent

/-- The name of an accepted rule adds a header. -/
theorem mail_broken : let _ := asciiTables; let _ := yes; let _ := samplePayloads
    let name := "n\r\nBcc: y@h"
    (silent name).validate = .ok (silent name) ∧ (silence name).Of (silent name) ∧
      (sendMail local_ relay (fun _ => []) (silent name) (silence name)).1 = some (mailed name) ∧
      ((read (mailed name)).map fun out => out.1.map Prod.fst) =
        some (["From", "To", "Subject", "Bcc", "Date", "MIME-Version", "Content-Type"].map ascii) ∧
      ¬ Intact (fun _ => []) (silence name) (mailed name) := by
  refine ⟨by rfl, { name := rfl, severity := rfl, subject := by decide +kernel }, rfl, by decide +kernel, ?_⟩
  rintro ⟨fields, body, reads, -, subject, -⟩
  exact (read_unbroken reads _ subject).1 (by decide +kernel)

end Sample

end NatsExplorer.Alerts
