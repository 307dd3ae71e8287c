import NatsExplorer.Client.LiveView
import NatsExplorer.Library.Transition

/-! One connection of the server and a tab that watches a subject of it (`client/src/lib/feed.ts`): the
feed, refreshes of the history and older pages, each asked, answered and applied as a step of its own. -/
namespace NatsExplorer.Client
open Go

def olderPage : Nat := 500

namespace LiveView

def setLoadingOlder (v : LiveView) (loading : Bool) : LiveView := { v with loadingOlder := loading }

def setLiveError (v : LiveView) (error : Str) : LiveView := { v with loading := false, error := some error }

end LiveView

structure Viewing where
  connID : Str
  /-- Recorded before the tab watched. -/
  earlier : List NatsMessage
  /-- Into the feed of the tab since then. -/
  sent : List NatsMessage
  /-- The last one on the subject is in the feed, and not in the history yet. -/
  recording : Bool
  /-- Sent and not taken up by `ingestFeed`. -/
  feed : List NatsMessage
  loadSeq : Nat
  /-- `loadSubject`, with its `seq` and whether the answer replaces the view. -/
  requests : List (Nat × Bool)
  answers : List (Nat × Bool × HistoryResponse)
  /-- `loadOlder`, with its cursor. -/
  cursors : List NatsMessage
  /-- The page before a cursor and its `more`. -/
  pages : List (NatsMessage × List NatsMessage × Bool)
  view : LiveView

namespace Viewing

inductive Op where
  | send (m : NatsMessage)
  | record
  | ingest (n : Nat)
  | loadSubject (replace : Bool)
  | answer (i : Nat) (branch : List NatsMessage)
  | apply (i : Nat)
  | fail (i : Nat) (error : Str)
  | loadOlder
  | answerOlder (i : Nat) (memory : Bool)
  | prepend (i : Nat)
  | failOlder (i : Nat)

/-- What was published on the subject. -/
def log (w : Viewing) : List NatsMessage := (w.earlier ++ w.sent).filter w.view.exact

def history (w : Viewing) : List NatsMessage := if w.recording then w.log.dropLast else w.log

/-- The first message with a connection and a sequence; zero is not on the wire. -/
def cursor (w : Viewing) : Option NatsMessage := w.view.messages.find? fun m => m.connID ≠ [] && m.sequence ≠ 0

def before (w : Viewing) (c : NatsMessage) : List NatsMessage := w.history.filter fun m => byArrival m c < 0

/-- A page that memory filled has more before it, even if it was the last. -/
def page (w : Viewing) (c : NatsMessage) (memory : Bool) : List NatsMessage × Bool :=
  (newest olderPage (w.before c),
    olderPage < (w.before c).length || memory && (w.before c).length = olderPage)

def step (w : Viewing) : Op → Viewing
  | .send m =>
    if w.view.exact m then
      -- One worker sends and records what is on a subject.
      if w.recording then w else { w with sent := w.sent ++ [m], feed := w.feed ++ [m], recording := true }
    else if w.view.below m then { w with sent := w.sent ++ [m], feed := w.feed ++ [m] }
    else w
  | .record => { w with recording := false }
  | .ingest n => { w with feed := w.feed.drop n, view := w.view.ingestFeed (w.feed.take n) }
  | .loadSubject replace => { w with loadSeq := w.loadSeq + 1, requests := w.requests ++ [(w.loadSeq + 1, replace)] }
  | .answer i branch =>
    match w.requests[i]? with
    | none => w
    | some (seq, replace) => { w with
        requests := w.requests.eraseIdx i
        answers := w.answers ++ [(seq, replace, ⟨newest maxSubjectMessages w.history, branch⟩)] }
  | .apply i =>
    match w.answers[i]? with
    | none => w
    | some (seq, replace, res) => { w with
        answers := w.answers.eraseIdx i
        view := if seq = w.loadSeq then w.view.applyHistory res replace else w.view }
  | .fail i error =>
    match w.requests[i]? with
    | none => w
    | some (seq, _) => { w with
        requests := w.requests.eraseIdx i
        view := if seq = w.loadSeq then w.view.setLiveError error else w.view }
  | .loadOlder =>
    if w.view.loading || w.view.loadingOlder || w.view.atOldest || maxLoadedMessages ≤ w.view.messages.length then w
    else
      match w.cursor with
      | none => w
      | some c => { w with cursors := w.cursors ++ [c], view := w.view.setLoadingOlder true }
  | .answerOlder i memory =>
    match w.cursors[i]? with
    | none => w
    | some c => { w with cursors := w.cursors.eraseIdx i, pages := w.pages ++ [(c, w.page c memory)] }
  | .prepend i =>
    match w.pages[i]? with
    | none => w
    | some (_, msgs, more) => { w with pages := w.pages.eraseIdx i, view := w.view.prependOlder msgs (!more) }
  | .failOlder i =>
    match w.cursors[i]? with
    | none => w
    | some _ => { w with cursors := w.cursors.eraseIdx i, view := w.view.setLoadingOlder false }

/-- A tab that starts watching. -/
structure Opened (w : Viewing) : Prop where
  sent : w.sent = []
  recording : w.recording = false
  feed : w.feed = []
  requests : w.requests = []
  answers : w.answers = []
  cursors : w.cursors = []
  pages : w.pages = []
  view : w.view = emptyView w.view.subject
  ordered : w.log.Pairwise Before
  conn : ∀ m ∈ w.log, m.connID = w.connID

/-- The messages on the subject are of the connection, and arrive in order. -/
def Ordered (w : Viewing) : Op → Prop
  | .send m => w.view.exact m = true → m.connID = w.connID ∧ ∀ old ∈ w.log, Before old m
  | _ => True

/-- Nothing newer than a held message is missing, the newest one sent is held, and where the view is at
its oldest it has everything, but for what does not fit. -/
structure Whole (w : Viewing) : Prop where
  newer : ∀ m ∈ w.view.messages, ∀ r ∈ w.log, Before m r → r ∈ w.view.messages
  newest : ∀ m ∈ (w.sent.filter w.view.exact).getLast?, m ∈ w.view.messages
  oldest : w.view.atOldest = true → (∀ r ∈ w.log, r ∈ w.view.messages) ∨ maxLoadedMessages ≤ w.view.messages.length

/-- A batch cuts nothing off a view that has everything and could hold more; an answer that replaces the
view is not older than what the view has; and the message before which an older page was asked is still
held, or still to come. -/
def Fitting (w : Viewing) : Op → Prop
  | .ingest n => w.view.atOldest = true →
      w.view.messages.length + ((w.feed.take n).filter w.view.exact).length ≤ w.view.cap ∨ maxLoadedMessages ≤ w.view.cap
  | .apply i => ∀ res, w.answers[i]? = some (w.loadSeq, true, res) →
      ∀ m ∈ w.view.messages, m ∈ res.messages ∨ ∃ r ∈ res.messages, Before m r
  | .prepend i => ∀ c page, w.pages[i]? = some (c, page) → c ∈ w.view.messages ∨ c ∈ w.feed
  | _ => True

end Viewing
end NatsExplorer.Client
