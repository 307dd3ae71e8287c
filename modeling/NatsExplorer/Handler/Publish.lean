import NatsExplorer.Handler.Template

/-! Publishing one message (`internal/handler/publish.go`): what is handed to NATS for what the browser sent. -/
namespace NatsExplorer.Handler
open Go

structure PublishBody where
  connID : Str
  subject : Str
  payload : Str
  headers : Header
  payloadType : Str := []

/-- `nats.Msg` -/
structure NatsMsg where
  subject : Str
  data : List UInt8
  header : Header
  deriving DecidableEq, Repr

/-- What the process and NATS have for one request. -/
structure Serving where
  connIDFromRequest : Str
  getNC : Str → Except Str Unit
  now : Int
  payload : Draws
  subject : Draws
  /-- By the name and the place of a value. -/
  header : Str → ℕ → Draws
  notBase64 : Str
  publishMsg : Except Str Unit
  flush : Except Str Unit
  /-- The error of a request without an answer. -/
  noAnswer : Str

/-- The values of one name, from the `j`-th on. -/
def expandValues (now : Int) (draws : ℕ → Draws) : ℕ → List Str → Option (List Str)
  | _, [] => some []
  | j, v :: vals => do
    let v ← expandTemplate v 1 now (draws j)
    let vals ← expandValues now draws (j + 1) vals
    some (v :: vals)

/-- A name without a value is never added. -/
def expandHeader (now : Int) (draws : Str → ℕ → Draws) : Header → Option Header
  | [] => some []
  | (k, vals) :: rest => do
    let vals ← expandValues now (draws k) 0 vals
    let rest ← expandHeader now draws rest
    some (if vals = [] then rest else (k, vals) :: rest)

def connID (env : Serving) (body : PublishBody) : Str := if body.connID = [] then env.connIDFromRequest else body.connID

/-- `parse`; nothing is a panic. -/
def parse (env : Serving) (body : PublishBody) : Option (Except Str NatsMsg) :=
  if connID env body = [] then some (.error "connId required".toList)
  else if body.subject = [] then some (.error "subject required".toList)
  else
    match env.getNC (connID env body) with
    | .error e => some (.error e)
    | .ok () =>
      match payloadBytes body.payload body.payloadType 1 env.now env.payload env.notBase64 with
      | none => none
      | some (.error e) => some (.error e)
      | some (.ok data) => do
        let subject ← expandTemplate body.subject 1 env.now env.subject
        let header ← expandHeader env.now env.header body.headers
        some (.ok { subject := subject, data := data, header := header })

/-- `Publish`: the answer, and what went to NATS. -/
def publish (env : Serving) (body : PublishBody) : Except Str Unit × List NatsMsg :=
  match parse env body with
  | none => (.error env.noAnswer, [])
  | some (.error e) => (.error e, [])
  | some (.ok msg) =>
    match env.publishMsg with
    | .error e => (.error e, [])
    | .ok () => (env.flush, [msg])

/-- Names and values, one by one. -/
def pairs (h : Header) : List (Str × Str) := h.flatMap fun (k, vals) => vals.map fun v => (k, v)

section Published
variable {env : Serving} {body : PublishBody} {msg : NatsMsg}

theorem publish_ok (done : (publish env body).1 = .ok ()) : ∃ msg, parse env body = some (.ok msg) ∧ (publish env body).2 = [msg] := by
  unfold publish at done ⊢
  split at done
  · cases done
  · cases done
  · next msg parsed =>
    refine ⟨msg, parsed, ?_⟩
    split at done
    · cases done
    · rfl

/-- What the message has when there is one. -/
structure Expanded (env : Serving) (body : PublishBody) (msg : NatsMsg) : Prop where
  subject : expandTemplate body.subject 1 env.now env.subject = some msg.subject
  data : payloadBytes body.payload body.payloadType 1 env.now env.payload env.notBase64 = some (.ok msg.data)
  header : expandHeader env.now env.header body.headers = some msg.header

theorem parse_ok (parsed : parse env body = some (.ok msg)) : Expanded env body msg := by
  unfold parse at parsed
  split at parsed
  · cases parsed
  split at parsed
  · cases parsed
  split at parsed
  · cases parsed
  split at parsed
  · cases parsed
  · cases parsed
  · next data payload =>
    simp only [Option.bind_eq_bind, Option.bind_eq_some_iff, Option.some.injEq, Except.ok.injEq] at parsed
    obtain ⟨subject, expanded, header, values, rfl⟩ := parsed
    exact { subject := expanded, data := payload, header := values }

variable {now : Int} {draws : ℕ → Draws} {headerDraws : Str → ℕ → Draws}

theorem expandValues_length {j : ℕ} {vals out : List Str} (done : expandValues now draws j vals = some out) : out.length = vals.length := by
  induction vals generalizing j out with
  | nil =>
    cases done
    rfl
  | cons v vals ih =>
    simp only [expandValues, Option.bind_eq_bind, Option.bind_eq_some_iff, Option.some.injEq] at done
    obtain ⟨w, -, rest, later, rfl⟩ := done
    rw [List.length_cons, List.length_cons, ih later]

theorem expandValues_same {j : ℕ} {vals out : List Str} (done : expandValues now draws j vals = some out) :
    out = vals ↔ ∀ v ∈ vals, ¬ Placed v := by
  induction vals generalizing j out with
  | nil =>
    cases done
    exact iff_of_true rfl fun _ member => absurd member List.not_mem_nil
  | cons v vals ih =>
    simp only [expandValues, Option.bind_eq_bind, Option.bind_eq_some_iff, Option.some.injEq] at done
    obtain ⟨w, first, rest, later, rfl⟩ := done
    have expanded : expandTemplate v 1 now (draws j) = some v ↔ ¬ Placed v := expandTemplate_same
    have same : w = v ↔ ¬ Placed v := by rw [← expanded, first, Option.some.injEq]
    rw [List.cons.injEq, same, ih later, List.forall_mem_cons]

theorem pairs_cons (k : Str) (vals : List Str) (h : Header) : pairs ((k, vals) :: h) = vals.map (fun v => (k, v)) ++ pairs h := rfl

/-- The values go out as they are exactly if no placeholder occurs in one. -/
theorem expandHeader_same {h out : Header} (done : expandHeader now headerDraws h = some out) :
    pairs out = pairs h ↔ ∀ entry ∈ h, ∀ v ∈ entry.2, ¬ Placed v := by
  induction h generalizing out with
  | nil =>
    cases done
    exact iff_of_true rfl fun _ member => absurd member List.not_mem_nil
  | cons entry h ih =>
    obtain ⟨k, vals⟩ := entry
    simp only [expandHeader, Option.bind_eq_bind, Option.bind_eq_some_iff, Option.some.injEq] at done
    obtain ⟨ws, first, rest, later, rfl⟩ := done
    have added : pairs (if ws = [] then rest else (k, ws) :: rest) = ws.map (fun v => (k, v)) ++ pairs rest := by
      split
      · next none =>
        rw [none]
        rfl
      · rfl
    have length : (ws.map fun v => (k, v)).length = (vals.map fun v => (k, v)).length := by
      rw [List.length_map, List.length_map, expandValues_length first]
    have injective : Function.Injective fun v : Str => (k, v) := fun _ _ same => (Prod.mk.inj same).2
    rw [added, pairs_cons, List.append_eq_append_iff_of_size_eq_left length, ih later, injective.list_map.eq_iff, expandValues_same first,
      List.forall_mem_cons]

end Published

end NatsExplorer.Handler
