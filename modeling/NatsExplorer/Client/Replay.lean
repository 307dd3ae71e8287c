import NatsExplorer.Handler.Publish
import NatsExplorer.Library.Streams

/-! Publishing recorded messages again (`client/src/lib/replay.ts`): oldest first, one after the other, through the
publish API. What arrives is what was recorded as long as the list does not hold two messages of one millisecond the
wrong way round and no text looks like a template. -/
namespace NatsExplorer.Client.Replay
open Go Handler Streams

/-- What a replay reads of a message. -/
structure Recorded where
  subject : Str
  payload : Str
  payloadType : Kind
  headers : Header
  timestamp : Int
  /-- `seq` of a stream message. -/
  sequence : ℕ
  deriving DecidableEq, Repr

/-- `rewrite`: subjects that start with `source` get `target` instead. -/
structure Rewrite where
  source : Str
  target : Str

structure ReplayProgress where
  sent : ℕ
  total : ℕ
  failed : ℕ
  lastError : Option Str := none

def rewriteSubject (subject : Str) : Option Rewrite → Str
  | some rw =>
    if rw.source ≠ [] ∧ strings.hasPrefix subject rw.source then rw.target ++ subject.drop rw.source.length else subject
  | none => subject

def older (a b : Recorded) : Prop := a.timestamp - b.timestamp ≤ 0

instance : DecidableRel older := fun a b => inferInstanceAs (Decidable (a.timestamp - b.timestamp ≤ 0))

def ordered (messages : List Recorded) : List Recorded := messages.insertionSort older

section Loop
variable (connID : Str) (rewrite : Option Rewrite) (aborted : ℕ → Bool) (serving : ℕ → Serving)

def body (m : Recorded) : PublishBody where
  connID := connID
  subject := rewriteSubject m.subject rewrite
  payload := m.payload
  headers := m.headers

/-- The loop from the `k`-th message on, and what went to NATS for which message. -/
def replayFrom : ℕ → List Recorded → ReplayProgress → ReplayProgress × List (Recorded × NatsMsg)
  | _, [], progress => (progress, [])
  | k, m :: rest, progress =>
    if aborted k then (progress, [])
    else if m.payloadType = .binary then
      replayFrom (k + 1) rest
        { progress with failed := progress.failed + 1, lastError := some "binary payloads cannot be replayed".toList }
    else
      let (answer, msgs) := publish (serving k) (body connID rewrite m)
      let (progress, later) := replayFrom (k + 1) rest
        (match answer with
        | .ok () => { progress with sent := progress.sent + 1 }
        | .error e => { progress with failed := progress.failed + 1, lastError := some e })
      (progress, msgs.map (fun msg => (m, msg)) ++ later)

def replayMessages (messages : List Recorded) : ReplayProgress × List (Recorded × NatsMsg) :=
  replayFrom connID rewrite aborted serving 0 (ordered messages) { sent := 0, total := messages.length, failed := 0 }

end Loop

/-- By time and then by sequence. -/
def inOrder (a b : Recorded) : Prop := a.timestamp < b.timestamp ∨ a.timestamp = b.timestamp ∧ a.sequence ≤ b.sequence

def textual (m : Recorded) : Bool := m.payloadType ≠ .binary

/-- The message is what was recorded. -/
structure Copy (rewrite : Option Rewrite) (m : Recorded) (msg : NatsMsg) : Prop where
  subject : msg.subject = rewriteSubject m.subject rewrite
  data : msg.data = utf8 m.payload
  header : pairs msg.header = pairs m.headers

/-- What arrives is what was recorded, in its order. -/
structure Faithful (rewrite : Option Rewrite) (messages : List Recorded) (published : List (Recorded × NatsMsg)) : Prop where
  each : (published.map Prod.fst).Perm (messages.filter textual)
  order : (published.map Prod.fst).Pairwise inOrder
  copies : ∀ p ∈ published, Copy rewrite p.1 p.2

/-- Every request of a message with a textual payload succeeds. -/
def Succeeding (connID : Str) (rewrite : Option Rewrite) (serving : ℕ → Serving) (k : ℕ) (messages : List Recorded) : Prop :=
  ∀ j m, messages[j]? = some m → textual m = true → (publish (serving (k + j)) (body connID rewrite m)).1 = .ok ()

/-- No text of the message looks like a template. -/
structure Plain (rewrite : Option Rewrite) (m : Recorded) : Prop where
  subject : ¬ Placed (rewriteSubject m.subject rewrite)
  payload : ¬ Placed m.payload
  headers : ∀ entry ∈ m.headers, ∀ v ∈ entry.2, ¬ Placed v

section Runs
variable {connID : Str} {rewrite : Option Rewrite} {aborted : ℕ → Bool} {serving : ℕ → Serving} {messages : List Recorded}

theorem copy_iff {env : Serving} {m : Recorded} {msg : NatsMsg} (expanded : Expanded env (body connID rewrite m) msg) :
    Copy rewrite m msg ↔ Plain rewrite m := by
  have subject : msg.subject = rewriteSubject m.subject rewrite ↔ ¬ Placed (rewriteSubject m.subject rewrite) := by
    have same : expandTemplate (rewriteSubject m.subject rewrite) 1 env.now env.subject = some (rewriteSubject m.subject rewrite) ↔
        ¬ Placed (rewriteSubject m.subject rewrite) := expandTemplate_same
    have sent : expandTemplate (rewriteSubject m.subject rewrite) 1 env.now env.subject = some msg.subject := expanded.subject
    rw [← same, sent, Option.some.injEq]
  have data : msg.data = utf8 m.payload ↔ ¬ Placed m.payload := by
    have sent : payloadBytes m.payload [] 1 env.now env.payload env.notBase64 = some (.ok msg.data) := expanded.data
    rw [payloadBytes_text (by decide)] at sent
    obtain ⟨text, out, same⟩ := Option.map_eq_some_iff.mp sent
    have expanded : expandTemplate m.payload 1 env.now env.payload = some m.payload ↔ ¬ Placed m.payload := expandTemplate_same
    rw [← expanded, out, Option.some.injEq, ← Except.ok.inj same]
    exact ⟨utf8_injective, fun same => same ▸ rfl⟩
  have header := expandHeader_same expanded.header
  constructor
  · intro copy
    exact { subject := subject.mp copy.subject, payload := data.mp copy.data, headers := header.mp copy.header }
  · intro plain
    exact { subject := subject.mpr plain.subject, data := data.mpr plain.payload, header := header.mpr plain.headers }

theorem Succeeding.tail {k : ℕ} {m : Recorded} {rest : List Recorded} (succeeding : Succeeding connID rewrite serving k (m :: rest)) :
    Succeeding connID rewrite serving (k + 1) rest := by
  intro j x here text
  have := succeeding (j + 1) x here text
  rwa [show k + (j + 1) = k + 1 + j by omega] at this

/-- One message each, in the order of the loop. -/
theorem replayFrom_each (running : ∀ k, aborted k = false) (k : ℕ) (progress : ReplayProgress)
    (succeeding : Succeeding connID rewrite serving k messages) :
    let published := (replayFrom connID rewrite aborted serving k messages progress).2
    published.map Prod.fst = messages.filter textual ∧ ∀ p ∈ published, Copy rewrite p.1 p.2 ↔ Plain rewrite p.1 := by
  induction messages generalizing k progress with
  | nil => exact ⟨rfl, fun _ member => absurd member List.not_mem_nil⟩
  | cons m rest ih =>
    have going : ¬ aborted k = true := by rw [running k]; exact Bool.false_ne_true
    simp only [replayFrom, if_neg going]
    split
    · next binary =>
      have skipped : (m :: rest).filter textual = rest.filter textual := List.filter_cons_of_neg (by simp [textual, binary])
      rw [skipped]
      exact ih _ _ succeeding.tail
    · next other =>
      have text : textual m = true := decide_eq_true other
      obtain ⟨msg, parsed, sent⟩ := publish_ok (succeeding 0 m rfl text)
      obtain ⟨each, copies⟩ := ih (k + 1)
        (match (publish (serving k) (body connID rewrite m)).1 with
        | .ok () => { progress with sent := progress.sent + 1 }
        | .error e => { progress with failed := progress.failed + 1, lastError := some e }) succeeding.tail
      rw [Nat.add_zero] at parsed sent
      rw [sent, List.filter_cons_of_pos text]
      refine ⟨congrArg (m :: ·) each, fun p member => ?_⟩
      rcases List.mem_cons.mp member with rfl | later
      · exact copy_iff (parse_ok parsed)
      · exact copies p later

instance : Std.Total older := ⟨fun a b => by unfold older; omega⟩
instance : IsTrans Recorded older := ⟨fun a b c => by unfold older; omega⟩

/-- A sort by time alone leaves what it was given of one millisecond. -/
theorem ordered_iff : (ordered messages).Pairwise inOrder ↔ messages.Pairwise fun a b => a.timestamp = b.timestamp → a.sequence ≤ b.sequence := by
  have sorted : (ordered messages).Pairwise older := List.pairwise_insertionSort _ _
  have stable (t : Int) : part Recorded.timestamp t (ordered messages) = part Recorded.timestamp t messages := by
    refine part_insertionSort (List.pairwise_of_forall_mem_list fun a ha b hb => ?_)
    have first := (mem_part.mp ha).2
    have second := (mem_part.mp hb).2
    unfold older
    omega
  have ties : (ordered messages).Pairwise (fun a b => a.timestamp = b.timestamp → a.sequence ≤ b.sequence) ↔
      messages.Pairwise fun a b => a.timestamp = b.timestamp → a.sequence ≤ b.sequence := by
    let R (a b : Recorded) : Prop := a.sequence ≤ b.sequence
    calc _ ↔ ∀ t, (part Recorded.timestamp t (ordered messages)).Pairwise R := pairwise_parts
      _ ↔ ∀ t, (part Recorded.timestamp t messages).Pairwise R := by simp only [stable]
      _ ↔ _ := pairwise_parts.symm
  rw [← ties]
  constructor
  · refine List.Pairwise.imp fun {a b} order same => ?_
    unfold inOrder at order
    omega
  · intro tie
    refine (sorted.and tie).imp fun {a b} both => ?_
    obtain ⟨time, tie⟩ := both
    unfold older at time
    unfold inOrder
    omega

/-- With all requests succeeding, a replay publishes what was recorded exactly if no two messages of one millisecond are in
the list the wrong way round and no text looks like a template. -/
theorem replay_faithful (running : ∀ k, aborted k = false) (succeeding : Succeeding connID rewrite serving 0 (ordered messages)) :
    Faithful rewrite messages (replayMessages connID rewrite aborted serving messages).2 ↔
      ((messages.filter textual).Pairwise fun a b => a.timestamp = b.timestamp → a.sequence ≤ b.sequence) ∧
        ∀ m ∈ messages, textual m = true → Plain rewrite m := by
  obtain ⟨each, copies⟩ := replayFrom_each running 0 { sent := 0, total := messages.length, failed := 0 } succeeding
  have kept : (ordered messages).filter textual = ordered (messages.filter textual) := insertionSort_filter textual messages
  have perm : (ordered messages).Perm messages := List.perm_insertionSort _ _
  have mem (m : Recorded) : m ∈ (replayMessages connID rewrite aborted serving messages).2.map Prod.fst ↔ m ∈ messages ∧ textual m = true := by
    rw [replayMessages, each, List.mem_filter, perm.mem_iff]
  constructor
  · intro faithful
    have order := faithful.order
    rw [replayMessages, each, kept] at order
    refine ⟨ordered_iff.mp order, fun m member text => ?_⟩
    obtain ⟨p, there, rfl⟩ := List.mem_map.mp ((mem m).mpr ⟨member, text⟩)
    exact (copies p there).mp (faithful.copies p there)
  · rintro ⟨ties, plain⟩
    refine { each := ?_, order := ?_, copies := fun p there => ?_ }
    · rw [replayMessages, each]
      exact perm.filter _
    · rw [replayMessages, each, kept]
      exact ordered_iff.mpr ties
    · obtain ⟨member, text⟩ := (mem p.1).mp (List.mem_map_of_mem there)
      exact (copies p there).mpr (plain p.1 member text)

/-- Two messages of one millisecond as a view holds them newest first, and one with a template in its text. -/
def newestFirst : List Recorded :=
  let m : Recorded := { subject := ['a'], payload := ['x'], payloadType := .string, headers := [], timestamp := 5, sequence := 2 }
  [m, { m with sequence := 1 }]

def counting : List Recorded :=
  [{ subject := ['a'], payload := ['{', '{', 'i', '}', '}'], payloadType := .string, headers := [], timestamp := 5, sequence := 1 }]

def plain : List Recorded :=
  [{ subject := ['a'], payload := ['{', 'x', '}'], payloadType := .json, headers := [(['k'], [['v']])], timestamp := 5, sequence := 1 }]

/-- A connection that takes everything. -/
def taking : Serving where
  connIDFromRequest := []
  getNC _ := .ok ()
  now := 0
  payload := { bytes := fun _ => none, intn := fun _ _ => 0 }
  subject := { bytes := fun _ => none, intn := fun _ _ => 0 }
  header _ _ := { bytes := fun _ => none, intn := fun _ _ => 0 }
  notBase64 := []
  publishMsg := .ok ()
  flush := .ok ()
  noAnswer := []

theorem succeeding_taking {k : ℕ} (each : ∀ m ∈ messages, (publish taking (body connID rewrite m)).1 = .ok ()) :
    Succeeding connID rewrite (fun _ => taking) k messages :=
  fun _ m here _ => each m (List.mem_of_getElem? here)

theorem replay_faithful_plain :
    Faithful none plain (replayMessages ['c'] none (fun _ => false) (fun _ => taking) plain).2 ↔
      ((plain.filter textual).Pairwise fun a b => a.timestamp = b.timestamp → a.sequence ≤ b.sequence) ∧
        ∀ m ∈ plain, textual m = true → Plain none m :=
  replay_faithful (fun _ => rfl) (succeeding_taking (by decide +kernel))

/-- Neither the order nor the texts are kept. -/
theorem replay_unfaithful :
    (Succeeding ['c'] none (fun _ => taking) 0 (ordered newestFirst) ∧
      ¬ Faithful none newestFirst (replayMessages ['c'] none (fun _ => false) (fun _ => taking) newestFirst).2) ∧
    Succeeding ['c'] none (fun _ => taking) 0 (ordered counting) ∧
      ¬ Faithful none counting (replayMessages ['c'] none (fun _ => false) (fun _ => taking) counting).2 := by
  refine ⟨⟨succeeding_taking (by decide +kernel), fun faithful => ?_⟩, succeeding_taking (by decide +kernel), fun faithful => ?_⟩
  · have order := faithful.order
    have sent : (replayMessages ['c'] none (fun _ => false) (fun _ => taking) newestFirst).2.map Prod.fst = newestFirst := by
      decide +kernel
    rw [sent] at order
    have first := (List.pairwise_cons.mp order).1 _ List.mem_cons_self
    revert first
    unfold inOrder
    decide
  · have sent : (replayMessages ['c'] none (fun _ => false) (fun _ => taking) counting).2 =
        counting.map fun m => (m, { subject := ['a'], data := utf8 ['1'], header := [] }) := by
      decide +kernel
    have copies := faithful.copies
    rw [sent] at copies
    exact absurd (copies _ List.mem_cons_self).data (by decide +kernel)

end Runs

end NatsExplorer.Client.Replay
