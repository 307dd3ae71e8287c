import NatsExplorer.Go.Text
import Mathlib.Algebra.Order.Field.Rat
import Mathlib.Data.List.Nodup
import Mathlib.Data.Rat.Floor

/-! The address bar and the view in step (`client/src/lib/urlSync.ts`, `deepLink.ts`): a link waits for its connection, and connects that
links start end in any order. -/
namespace NatsExplorer.Client
open Go

namespace urlSync

inductive Module where
  | subjects | state | jetstream | kv | objects | services | requests | events | monitor | cluster | alerts | audit
  deriving DecidableEq, Repr

/-- What a link can say about the view. -/
structure DeepLink where
  module : Option Module := none
  conn : Option Str := none
  subject : Option Str := none
  from_ : Option ℤ := none
  to_ : Option ℤ := none
  stream : Option Str := none
  bucket : Option Str := none
  key : Option Str := none
  store : Option Str := none
  service : Option Str := none
  template : Option Str := none
  deriving DecidableEq, Repr

/-- What the browser brings. -/
class Browser where
  /-- `URLSearchParams`, written and read. -/
  query : List (Str × Str) → Str
  params : Str → Str → Option Str
  /-- `Number`, where it is finite; of null it is 0. -/
  number : Option Str → Option ℚ

def Module.name : Module → Str
  | .subjects => "subjects".toList
  | .state => "state".toList
  | .jetstream => "jetstream".toList
  | .kv => "kv".toList
  | .objects => "objects".toList
  | .services => "services".toList
  | .requests => "requests".toList
  | .events => "events".toList
  | .monitor => "monitor".toList
  | .cluster => "cluster".toList
  | .alerts => "alerts".toList
  | .audit => "audit".toList

def modules : List Module :=
  [.subjects, .state, .jetstream, .kv, .objects, .services, .requests, .events, .monitor, .cluster, .alerts, .audit]

/-- A text that says something: the empty one is falsy. -/
def given (s : Option Str) : Option Str := s.filter (· ≠ [])

def stripped (c : Char) (s : Str) : Str := if s.head? = some c then s.tail else s

def round (x : ℚ) : ℤ := ⌊x + 1 / 2⌋

/-- What is on the screen, as far as links go. -/
structure View where
  module : Module := .subjects
  activeConnId : Option Str := none
  selectedSubject : Option Str := none
  selectedSubjects : List Str := []
  range : Option (ℤ × ℤ) := none
  selectedStream : Option Str := none
  selectedKvBucket : Option Str := none
  selectedKvKey : Option Str := none
  selectedObjStore : Option Str := none
  selectedService : Option Str := none
  selectedTemplateId : Option Str := none
  deriving DecidableEq, Repr

section
variable [Browser]

/-- Reads a hash; anything it does not understand is left out. -/
def parseLink (hash : Str) : DeepLink :=
  let s := stripped '/' (stripped '#' hash)
  let path := s.takeWhile (· ≠ '?')
  let get := Browser.params ((s.dropWhile (· ≠ '?')).drop 1)
  let value (k : String) := given (get k.toList)
  let window : Option (ℚ × ℚ) := do
    let from_ ← Browser.number (get "from".toList)
    let to_ ← Browser.number (get "to".toList)
    if 0 < from_ ∧ from_ < to_ then some (from_, to_) else none
  { module := modules.find? (·.name = path)
    conn := value "conn"
    subject := value "subject"
    stream := value "stream"
    bucket := value "bucket"
    key := value "key"
    store := value "store"
    service := value "service"
    template := value "template"
    from_ := window.map fun w => round w.1
    to_ := window.map fun w => round w.2 }

def formatLink (link : DeepLink) : Str :=
  match link.module with
  | none => []
  | some module =>
    let strings := [("conn", link.conn), ("subject", link.subject), ("stream", link.stream), ("bucket", link.bucket), ("key", link.key),
      ("store", link.store), ("service", link.service), ("template", link.template)]
    let window := match link.from_, link.to_ with
      | some a, some b => [("from".toList, (toString a).toList), ("to".toList, (toString b).toList)]
      | _, _ => []
    let query := Browser.query (strings.filterMap (fun (k, v) => (given v).map fun v => (k.toList, v)) ++ window)
    "#/".toList ++ module.name ++ if query ≠ [] then '?' :: query else []

end

/-- What the view is looking at, as a link: only the selection of its module. -/
def linkFromState (v : View) : DeepLink :=
  let link : DeepLink := { module := some v.module, conn := given v.activeConnId }
  match v.module with
  | .subjects =>
    match given v.selectedSubject with
    | none => link
    | some subject => { link with subject := some subject, from_ := v.range.map Prod.fst, to_ := v.range.map Prod.snd }
  | .jetstream => { link with stream := given v.selectedStream }
  | .kv =>
    match given v.selectedKvBucket with
    | none => link
    | some bucket => { link with bucket := some bucket, key := given v.selectedKvKey }
  | .objects => { link with store := given v.selectedObjStore }
  | .services => { link with service := given v.selectedService }
  | .requests => { link with template := given v.selectedTemplateId }
  | _ => link

namespace View

def setModule (m : Module) (v : View) : View := { v with module := m }

/-- Another connection is active: what is selected in the last one goes. -/
def activate (id : Option Str) (v : View) : View :=
  if v.activeConnId = id then v
  else
    { v with
      activeConnId := id, selectedStream := none, selectedKvBucket := none, selectedKvKey := none, selectedObjStore := none,
      selectedService := none }

def setActiveConnId (id : Str) (v : View) : View := v.activate (some id)

def setSelectedSubject (subject : Option Str) (v : View) : View :=
  if v.selectedSubject = subject ∧ v.selectedSubjects.length ≤ 1 then v
  else { v with selectedSubjects := (given subject).toList, selectedSubject := subject, range := none }

def setSelectedKvBucket (bucket : Option Str) (v : View) : View :=
  if v.selectedKvBucket = bucket then v else { v with selectedKvBucket := bucket, selectedKvKey := none }

/-- `windowRange`, as milliseconds. -/
def setRange (from_ to_ : ℤ) (v : View) : View := { v with range := some (max 0 from_, to_) }

end View

/-- Applies what the link says; its connection is resolved by then. -/
def applySelection (link : DeepLink) (v : View) : View :=
  match link.module with
  | none => v
  | some module =>
    let v := v.setModule module
    match module with
    | .subjects =>
      match given link.subject with
      | some subject =>
        let v := v.setSelectedSubject (some subject)
        match link.from_, link.to_ with
        | some a, some b => v.setRange a b
        | _, _ => v
      | none => if (given v.selectedSubject).isSome then v.setSelectedSubject none else v
    | .jetstream => { v with selectedStream := link.stream }
    | .kv =>
      let v := v.setSelectedKvBucket link.bucket
      if (given link.bucket).isSome then { v with selectedKvKey := link.key } else v
    | .objects => { v with selectedObjStore := link.store }
    | .services => { v with selectedService := link.service }
    | .requests => { v with selectedTemplateId := link.template }
    | _ => v

structure ConnectionStatus where
  id : Str
  connected : Bool

/-- The page, with what was followed on it. -/
structure App where
  view : View := {}
  connections : List ConnectionStatus := []
  connectionsLoaded : Bool := false
  /-- The ids of the saved connections. -/
  saved : List Str := []
  pending : Option DeepLink := none
  /-- `location.hash`. -/
  hash : Str := []
  /-- The connects in flight, each for its link; a link goes by how many were followed with it. -/
  connecting : List (ℕ × DeepLink) := []
  /-- The links followed so far. -/
  followed : List DeepLink := []
  /-- The user changed the view since. -/
  touched : Bool := false

section
variable [Browser]

/-- The address says what is on the screen, unless a link waits for the list of connections. -/
def write (s : App) : App := if s.pending.isSome then s else { s with hash := formatLink (linkFromState s.view) }

/-- Tries to apply the pending link. The store changes under way write the address, those of `applySelection` do not. -/
def resolvePending (s : App) : App :=
  match s.pending with
  | none => s
  | some link =>
    match given link.conn with
    | none => { s with pending := none, view := applySelection link s.view }
    | some conn =>
      if ¬ s.connectionsLoaded then s
      else
        let s := { s with pending := none }
        if s.connections.any (·.id = conn) then
          let s := write { s with view := s.view.setActiveConnId conn }
          { s with view := applySelection link s.view }
        else if conn ∈ s.saved then
          let s := match link.module with
            | some m => write { s with view := s.view.setModule m }
            | none => s
          { s with connecting := s.connecting ++ [(s.followed.length, link)] }
        else { s with view := applySelection link s.view }

/-- A change of the store: the address follows, then the pending link gets its chance. -/
def notified (s : App) : App :=
  let s := write s
  if s.pending.isSome ∧ s.connectionsLoaded then resolvePending s else s

def follow (link : DeepLink) (s : App) : App :=
  resolvePending { s with pending := some link, followed := s.followed ++ [link], touched := false }

def openLink (link : DeepLink) (s : App) : App := follow link s

/-- A back button, or the address the page is opened at. -/
def onPop (hash : Str) (s : App) : App :=
  let s := { s with hash := hash }
  let link := parseLink hash
  if link.module = none ∧ link.conn = none then s else follow link s

/-- The connection that is active when a list arrives. -/
def activeAfter (conns : List ConnectionStatus) (active : Option Str) : Option Str :=
  if conns.any fun c => active = some c.id then active
  else ((conns.find? (·.connected)).or conns.head?).map ConnectionStatus.id

def received (conns : List ConnectionStatus) (s : App) : App :=
  { s with connections := conns, connectionsLoaded := true, view := s.view.activate (activeAfter conns s.view.activeConnId) }

def setConnections (conns : List ConnectionStatus) (s : App) : App := notified (received conns s)

/-- A connect ends; the server gives back the id it is given. -/
def completed (i : ℕ) (ok : Bool) (s : App) : App :=
  match s.connecting[i]? with
  | none => s
  | some (_, link) =>
    let s := { s with connecting := s.connecting.eraseIdx i }
    if ok then
      let s := notified { s with view := s.view.activate link.conn }
      { s with view := applySelection link s.view }
    else s

inductive Event where
  | openLink (link : DeepLink)
  | popstate (hash : Str)
  | connections (conns : List ConnectionStatus)
  /-- The connect in this place succeeds or fails. -/
  | completed (i : ℕ) (ok : Bool)
  /-- The store changes otherwise; by the user where the view is another. -/
  | changed (view : View)
  | saved (ids : List Str)

def step (s : App) : Event → App
  | .openLink link => openLink link s
  | .popstate hash => onPop hash s
  | .connections conns => setConnections conns s
  | .completed i ok => completed i ok s
  | .changed view => notified { s with view := view, touched := s.touched || decide (view ≠ s.view) }
  | .saved ids => { s with saved := ids }

end

/-! ### What a link asks for -/

/-- What the link says is selected in its module. -/
def Selected (link : DeepLink) (v : View) : Module → Prop
  | .subjects => given v.selectedSubject = given link.subject
  | .jetstream => v.selectedStream = link.stream
  | .kv => v.selectedKvBucket = link.bucket ∧ ((given link.bucket).isSome → v.selectedKvKey = link.key)
  | .objects => v.selectedObjStore = link.store
  | .services => v.selectedService = link.service
  | .requests => v.selectedTemplateId = link.template
  | _ => True

/-- Module, active connection and selection are those of the link. -/
def Shows (link : DeepLink) (v : View) : Prop :=
  (∀ m, link.module = some m → v.module = m ∧ Selected link v m) ∧ ∀ conn, given link.conn = some conn → v.activeConnId = some conn

/-- Nothing the link selects goes with the active connection. -/
def Unbound (link : DeepLink) : Prop :=
  given link.conn = none ∧
    match link.module with
    | some .jetstream => link.stream = none
    | some .kv => link.bucket = none
    | some .objects => link.store = none
    | some .services => link.service = none
    | _ => True

theorem activate_active (id : Option Str) (v : View) : (v.activate id).activeConnId = id := by
  unfold View.activate
  split
  · assumption
  · rfl

theorem applySelection_active (link : DeepLink) (v : View) : (applySelection link v).activeConnId = v.activeConnId := by
  have subject (subject : Option Str) (v : View) : (v.setSelectedSubject subject).activeConnId = v.activeConnId := by
    unfold View.setSelectedSubject
    split <;> rfl
  have bucket (bucket : Option Str) (v : View) : (v.setSelectedKvBucket bucket).activeConnId = v.activeConnId := by
    unfold View.setSelectedKvBucket
    split <;> rfl
  unfold applySelection
  cases link.module with
  | none => rfl
  | some module =>
    cases module <;> dsimp only
    case subjects =>
      split
      · split <;> exact subject _ _
      · split
        · exact subject _ _
        · rfl
    case kv => split <;> exact bucket _ _
    all_goals rfl

/-- Applying a link shows it, if its connection is active. -/
theorem applySelection_shows {link : DeepLink} {v : View} (active : ∀ conn, given link.conn = some conn → v.activeConnId = some conn) :
    Shows link (applySelection link v) := by
  refine ⟨fun m named => ?_, fun conn named => (applySelection_active link v).trans (active conn named)⟩
  have subject (subject : Option Str) (v : View) :
      (v.setSelectedSubject subject).module = v.module ∧ (v.setSelectedSubject subject).selectedSubject = subject := by
    unfold View.setSelectedSubject
    split
    · rename_i same
      exact ⟨rfl, same.1⟩
    · exact ⟨rfl, rfl⟩
  have bucket (bucket : Option Str) (v : View) :
      (v.setSelectedKvBucket bucket).module = v.module ∧ (v.setSelectedKvBucket bucket).selectedKvBucket = bucket := by
    unfold View.setSelectedKvBucket
    split
    · rename_i same
      exact ⟨rfl, same⟩
    · exact ⟨rfl, rfl⟩
  unfold applySelection
  rw [named]
  cases m <;> dsimp only [Selected]
  case subjects =>
    split
    · rename_i s given_
      have set_ := subject (some s) (v.setModule .subjects)
      have same : given (some s) = some s :=
         Option.filter_eq_some_iff.mpr ⟨rfl, (Option.filter_eq_some_iff.mp given_).2⟩
      split <;> exact ⟨set_.1, (congrArg given set_.2).trans (same.trans given_.symm)⟩
    · rename_i none_
      split
      · have set_ := subject none (v.setModule .subjects)
        exact ⟨set_.1, (congrArg given set_.2).trans none_.symm⟩
      · rename_i unselected
        exact ⟨rfl, (Option.not_isSome_iff_eq_none.mp unselected).trans none_.symm⟩
  case kv =>
    have set_ := bucket link.bucket (v.setModule .kv)
    split
    · exact ⟨set_.1, set_.2, fun _ => rfl⟩
    · rename_i none_
      exact ⟨set_.1, set_.2, fun some_ => absurd some_ none_⟩
  all_goals exact ⟨rfl, by trivial⟩

/-- A link that is bound to no connection is still shown when another one becomes active. -/
theorem Unbound.activate {link : DeepLink} (unbound : Unbound link) (id : Option Str) {v : View} (shown : Shows link v) :
    Shows link (v.activate id) := by
  obtain ⟨connless, selectionless⟩ := unbound
  refine ⟨fun m named => ?_, fun conn named_ => absurd (named_.symm.trans connless) (Option.some_ne_none conn)⟩
  have before := shown.1 m named
  unfold View.activate
  split
  · exact before
  · rw [named] at selectionless
    refine ⟨before.1, ?_⟩
    cases m <;> dsimp only at selectionless <;> dsimp only [Selected]
    case subjects => exact before.2
    case requests => exact before.2
    case kv => exact ⟨selectionless.symm, fun some_ => by rw [selectionless] at some_; cases some_⟩
    all_goals exact selectionless.symm

/-! ### Runs -/

section
variable [Browser]

def App.last (s : App) : Option DeepLink := s.followed.getLast?

/-- The last link's own connect is in flight. -/
def App.opening (s : App) : Prop := ∃ link, (s.followed.length, link) ∈ s.connecting

/-- The last link followed waits for its connection: for the list, or for its connect. -/
def App.waits (s : App) : Prop := s.pending.isSome ∨ s.opening

/-- Nothing is in flight: the last link followed is on the screen, unless the user changed that. -/
def Wins (s : App) : Prop :=
  s.pending = none → s.connecting = [] → s.touched = false → ∀ link, s.last = some link → Shows link s.view

/-- While the last link followed waits, the address holds it. -/
def Holds (s : App) : Prop := s.waits → ∀ link, s.last = some link → parseLink s.hash = link

/-- What the address reads as once it is written for a view. -/
def saidOf (v : View) : DeepLink := parseLink (formatLink (linkFromState v))

/-- The link needs no connection but one that is there; or one that is saved, and the address holds the link until that is open. -/
def Plain (s : App) (link : DeepLink) : Prop :=
  ∀ conn, given link.conn = some conn →
    if s.connectionsLoaded then
      s.connections.any (·.id = conn) ∨
        conn ∈ s.saved ∧ match link.module with
          | some m => saidOf (s.view.setModule m) = link
          | none => parseLink s.hash = link
    else parseLink s.hash = link

/-- What the store may change to: while the last link opens its connection, the address says that link. -/
def Quiet (s : App) (v : View) : Prop := s.pending = none → s.opening → ∀ link, s.last = some link → saidOf v = link

/-- What may happen. -/
def Orderly (s : App) : Event → Prop
  | .openLink link => Plain s link
  | .popstate hash =>
    let link := parseLink hash
    if link.module = none ∧ link.conn = none then ¬ s.waits else Plain { s with hash := hash } link
  | .connections conns =>
    let s' := received conns s
    match s.pending with
    | some link => Plain s' link
    | none => Quiet s s'.view ∧
        (¬ s.opening → s.touched = false → s'.view.activeConnId = s.view.activeConnId ∨ ∀ link, s.last = some link → Unbound link)
  | .completed i ok => ∀ n link, s.connecting[i]? = some (n, link) →
      if n = s.followed.length then s.touched = false → ok = true
      else ok = true → (s.touched = false → s.opening) ∧ Quiet s (s.view.activate link.conn)
  | .changed view => Quiet s view
  | .saved _ => True

/-- What holds all along. -/
structure Inv (s : App) : Prop where
  resolved : s.connectionsLoaded → s.pending = none
  unopened : s.connectionsLoaded = false → s.connecting = []
  pending : ∀ link, s.pending = some link → s.last = some link
  below : ∀ c ∈ s.connecting, c.1 ≤ s.followed.length
  once : (s.connecting.map Prod.fst).Nodup
  own : ∀ link, (s.followed.length, link) ∈ s.connecting → s.last = some link
  shown : ¬ s.waits → s.touched = false → ∀ link, s.last = some link → Shows link s.view
  held : Holds s

theorem Inv.wins {s : App} (inv : Inv s) : Wins s := by
  intro settled none_ untouched
  refine inv.shown ?_ untouched
  rintro (waiting | ⟨link, member⟩)
  · rw [settled] at waiting
    cases waiting
  · rw [none_] at member
    cases member

/-- What is true of a link that was followed just now, or waited for the list that has come. -/
structure Followed (s : App) (link : DeepLink) : Prop where
  pending : s.pending = some link
  unopened : s.connectionsLoaded = false → s.connecting = []
  last : s.last = some link
  below : ∀ c ∈ s.connecting, c.1 < s.followed.length
  once : (s.connecting.map Prod.fst).Nodup
  plain : Plain s link

/-- A link that is applied is shown, and waits no more. -/
theorem Followed.apply {s : App} {link : DeepLink} (f : Followed s link) {v : View} (hash : Str)
    (active : ∀ conn, given link.conn = some conn → v.activeConnId = some conn) :
    Inv { s with pending := none, hash := hash, view := applySelection link v } := by
  have done : ¬ App.waits { s with pending := none, hash := hash, view := applySelection link v } := by
    rintro (waiting | ⟨link', member⟩)
    · cases waiting
    · exact absurd (f.below _ member) (lt_irrefl _)
  refine ⟨fun _ => rfl, f.unopened, fun _ none_ => absurd none_ (Option.some_ne_none _).symm, fun c member => (f.below c member).le, f.once, ?_, ?_, fun waiting => absurd waiting done⟩
  · intro link' member
    exact absurd (f.below _ member) (lt_irrefl _)
  · intro _ _ link' last
    obtain rfl : link = link' := Option.some.inj (f.last.symm.trans last)
    exact applySelection_shows active

/-- A connect starts, and the address holds its link. -/
theorem Followed.open {s : App} {link : DeepLink} (f : Followed s link) {hash : Str} (v : View) (loaded : s.connectionsLoaded = true)
    (holds : parseLink hash = link) :
    Inv { s with pending := none, hash := hash, view := v, connecting := s.connecting ++ [(s.followed.length, link)] } := by
  refine ⟨fun _ => rfl, fun unloaded => ?_, fun _ none_ => absurd none_ (Option.some_ne_none _).symm, ?_, ?_, ?_, ?_, ?_⟩
  · rw [loaded] at unloaded
    cases unloaded
  · intro c member
    rcases List.mem_append.mp member with old | new
    · exact (f.below c old).le
    · rw [List.mem_singleton.mp new]
  · rw [List.map_append, List.nodup_append]
    refine ⟨f.once, List.nodup_singleton _, ?_⟩
    rintro n old _ new rfl
    obtain ⟨c, member, same⟩ := List.mem_map.mp old
    have below := f.below c member
    rw [same, List.mem_singleton.mp new] at below
    exact lt_irrefl _ below
  · intro link' member
    rcases List.mem_append.mp member with old | new
    · exact absurd (f.below _ old) (lt_irrefl _)
    · cases List.mem_singleton.mp new
      exact f.last
  · intro quiet
    exact absurd (.inr ⟨link, List.mem_append_right _ (List.mem_singleton_self _)⟩) quiet
  · intro _ link' last
    obtain rfl : link = link' := Option.some.inj (f.last.symm.trans last)
    exact holds

theorem Followed.resolve {s : App} {link : DeepLink} (f : Followed s link) : Inv (resolvePending s) := by
  unfold resolvePending
  rw [f.pending]
  dsimp only
  cases named : given link.conn with
  | none => exact f.apply s.hash fun conn named' => absurd (named.symm.trans named') (Option.some_ne_none conn).symm
  | some conn =>
    dsimp only
    have plain := f.plain conn named
    by_cases loaded : s.connectionsLoaded = true
    · rw [if_neg (not_not.mpr loaded)]
      rw [if_pos loaded] at plain
      split
      · refine f.apply _ fun conn' named' => ?_
        rw [← named', named]
        exact activate_active _ _
      · rename_i unknown
        obtain ⟨saved, holds⟩ := plain.resolve_left unknown
        rw [if_pos saved]
        cases module : link.module with
        | none =>
          rw [module] at holds
          exact f.open s.view loaded holds
        | some m =>
          rw [module] at holds
          exact f.open (s.view.setModule m) loaded holds
    · rw [if_pos loaded]
      rw [if_neg loaded] at plain
      have unloaded : s.connectionsLoaded = false := (Bool.not_eq_true _).mp loaded
      have waiting : s.waits := .inl (by rw [f.pending]; rfl)
      refine ⟨fun there => absurd there loaded, f.unopened, ?_, fun c member => (f.below c member).le, f.once, ?_, ?_, ?_⟩
      · intro link' pending
        exact f.last.trans (f.pending.symm.trans pending)
      · intro link' member
        exact absurd (f.below _ member) (lt_irrefl _)
      · exact fun done => absurd waiting done
      · intro _ link' last
        obtain rfl : link = link' := Option.some.inj (f.last.symm.trans last)
        exact plain

omit [Browser] in
theorem opening_of_waits {s : App} (settled : s.pending = none) (waits : s.waits) : s.opening := by
  rcases waits with pending | opening
  · rw [settled] at pending
    cases pending
  · exact opening

theorem notified_settled {s : App} (settled : s.pending = none) : notified s = { s with hash := formatLink (linkFromState s.view) } := by
  have written : write s = { s with hash := formatLink (linkFromState s.view) } := by rw [write, settled]; rfl
  unfold notified
  dsimp only
  rw [written, if_neg]
  rintro ⟨waiting, -⟩
  rw [settled] at waiting
  cases waiting

theorem write_waiting {s : App} {link : DeepLink} (pending : s.pending = some link) : write s = s := by
  rw [write, pending]
  rfl

theorem Inv.unloaded {s : App} {link : DeepLink} (inv : Inv s) (pending : s.pending = some link) : s.connectionsLoaded = false := by
  by_contra loaded
  rw [inv.resolved ((Bool.not_eq_false _).mp loaded)] at pending
  cases pending

theorem Inv.follow {s : App} {link : DeepLink} (inv : Inv s) (hash : Str) (plain : Plain { s with hash := hash } link) :
    Inv (follow link { s with hash := hash }) := by
  refine @Followed.resolve _ _ link ⟨rfl, inv.unopened, List.getLast?_concat, fun c member => ?_, inv.once, plain⟩
  have below := inv.below c member
  rw [List.length_append]
  exact Nat.lt_succ_of_le below

theorem Inv.received {s : App} {conns : List ConnectionStatus} (inv : Inv s) (orderly : Orderly s (.connections conns)) :
    Inv (setConnections conns s) := by
  unfold setConnections
  unfold Orderly at orderly
  dsimp only at orderly
  cases pending : s.pending with
  | some link =>
    rw [pending] at orderly
    have idle := inv.unopened (inv.unloaded pending)
    have pending' : (urlSync.received conns s).pending = some link := pending
    have resolves : notified (urlSync.received conns s) = resolvePending (urlSync.received conns s) := by
      unfold notified
      dsimp only
      rw [write_waiting pending', if_pos ⟨by rw [pending']; rfl, rfl⟩]
    rw [resolves]
    refine @Followed.resolve _ _ link ⟨pending', fun _ => idle, inv.pending link pending, fun c member => ?_, inv.once, orderly⟩
    have member : c ∈ s.connecting := member
    rw [idle] at member
    cases member
  | none =>
    rw [pending] at orderly
    obtain ⟨quiet, keeps⟩ := orderly
    have pending' : (urlSync.received conns s).pending = none := pending
    rw [notified_settled pending']
    refine ⟨fun _ => pending, fun unloaded => absurd unloaded (Bool.true_eq_false ▸ id), fun link there => ?_, inv.below, inv.once, inv.own, ?_, ?_⟩
    · exact absurd (pending.symm.trans there) (Option.some_ne_none link).symm
    · intro done untouched link last
      have closed : ¬ s.opening := fun opening => done (.inr opening)
      have shown := inv.shown (fun waiting => done waiting) untouched link last
      rcases keeps closed untouched with same | unbound
      · have same : (urlSync.received conns s).view = s.view := by
          have active := activate_active (activeAfter conns s.view.activeConnId) s.view
          have unchanged : s.view.activeConnId = activeAfter conns s.view.activeConnId := same.symm.trans active
          exact if_pos unchanged
        change Shows link (urlSync.received conns s).view
        rwa [same]
      · exact (unbound link last).activate _ shown
    · intro waiting link last
      exact quiet pending (opening_of_waits pending waiting) link last

theorem Inv.changed {s : App} {view : View} (inv : Inv s) (quiet : Quiet s view) :
    Inv (notified { s with view := view, touched := s.touched || decide (view ≠ s.view) }) := by
  have untouched {link : DeepLink} (shown : Shows link s.view) (touched : (s.touched || decide (view ≠ s.view)) = false) :
      Shows link view := by
    have same : view = s.view := not_not.mp (of_decide_eq_false (Bool.or_eq_false_iff.mp touched).2)
    rwa [same]
  rcases Option.eq_none_or_eq_some s.pending with pending | ⟨link, pending⟩
  · rw [notified_settled (s := { s with view := view, touched := s.touched || decide (view ≠ s.view) }) pending]
    refine ⟨fun _ => pending, inv.unopened, inv.pending, inv.below, inv.once, inv.own, ?_, ?_⟩
    · exact fun done touched link last => untouched (inv.shown done (Bool.or_eq_false_iff.mp touched).1 link last) touched
    · exact fun waiting link last => quiet pending (opening_of_waits pending waiting) link last
  · have stays : notified { s with view := view, touched := s.touched || decide (view ≠ s.view) } =
        { s with view := view, touched := s.touched || decide (view ≠ s.view) } := by
      unfold notified
      dsimp only
      rw [write_waiting (s := { s with view := view, touched := s.touched || decide (view ≠ s.view) }) pending, if_neg]
      rintro ⟨-, loaded⟩
      rw [inv.unloaded pending] at loaded
      cases loaded
    rw [stays]
    exact ⟨inv.resolved, inv.unopened, inv.pending, inv.below, inv.once, inv.own,
      fun done touched link last => untouched (inv.shown done (Bool.or_eq_false_iff.mp touched).1 link last) touched, inv.held⟩

omit [Browser] in
/-- Whether the last link's connect is in flight does not depend on another link's. -/
theorem opening_erase {s : App} {i n : ℕ} {link : DeepLink} (there : s.connecting[i]? = some (n, link)) (earlier : n ≠ s.followed.length) :
    App.opening { s with connecting := s.connecting.eraseIdx i } ↔ s.opening := by
  refine exists_congr fun last => ⟨fun member => (List.eraseIdx_sublist _ _).subset member, fun member => ?_⟩
  obtain ⟨j, below, found⟩ := List.mem_iff_getElem.mp member
  refine List.mem_eraseIdx_iff_getElem?.mpr ⟨j, ?_, ?_⟩
  · rintro rfl
    rw [List.getElem?_eq_getElem below, found] at there
    exact earlier (congrArg Prod.fst (Option.some.inj there)).symm
  · rw [List.getElem?_eq_getElem below, found]

/-- A connect fails, or ends that is not the last link's. -/
theorem Inv.passed {s : App} {i n : ℕ} {link : DeepLink} (inv : Inv s) (there : s.connecting[i]? = some (n, link))
    (earlier : s.touched = false → n ≠ s.followed.length) : Inv { s with connecting := s.connecting.eraseIdx i } := by
  have fewer : (s.connecting.eraseIdx i).Sublist s.connecting := List.eraseIdx_sublist _ _
  refine ⟨inv.resolved, fun unloaded => ?_, inv.pending, fun c member => inv.below c (fewer.subset member), inv.once.sublist (fewer.map _),
    fun link member => inv.own link (fewer.subset member), fun done untouched => inv.shown (fun waiting => done ?_) untouched,
    fun waiting => inv.held (waiting.imp_right fun ⟨other, member⟩ => ⟨other, fewer.subset member⟩)⟩
  · exact List.sublist_nil.mp (inv.unopened unloaded ▸ fewer)
  · exact waiting.imp_right (opening_erase there (earlier untouched)).mpr

theorem Inv.settled {s : App} {c : ℕ × DeepLink} (inv : Inv s) (member : c ∈ s.connecting) : s.connectionsLoaded = true ∧ s.pending = none := by
  have loaded : s.connectionsLoaded = true := by
    by_contra unloaded
    rw [inv.unopened ((Bool.not_eq_true _).mp unloaded)] at member
    cases member
  exact ⟨loaded, inv.resolved loaded⟩

/-- A connect that succeeds shows its link. -/
theorem completed_ok {s : App} {i n : ℕ} {link : DeepLink} (there : s.connecting[i]? = some (n, link)) (pending : s.pending = none) :
    completed i true s = { s with
      connecting := s.connecting.eraseIdx i, hash := formatLink (linkFromState (s.view.activate link.conn)),
      view := applySelection link (s.view.activate link.conn) } := by
  unfold completed
  rw [there]
  dsimp only
  rw [if_pos rfl, notified_settled (s := { s with connecting := s.connecting.eraseIdx i, view := s.view.activate link.conn }) pending]

/-- The last link's connect succeeds. -/
theorem Inv.opened {s : App} {i : ℕ} {link : DeepLink} (inv : Inv s) (there : s.connecting[i]? = some (s.followed.length, link)) :
    Inv (completed i true s) := by
  have member : (s.followed.length, link) ∈ s.connecting := List.mem_of_getElem? there
  have fewer : (s.connecting.eraseIdx i).Sublist s.connecting := List.eraseIdx_sublist _ _
  obtain ⟨loaded, pending⟩ := inv.settled member
  have last := inv.own link member
  rw [completed_ok there pending]
  have closed : ∀ other, (s.followed.length, other) ∉ s.connecting.eraseIdx i := by
    intro other again
    obtain ⟨j, different, found⟩ := List.mem_eraseIdx_iff_getElem?.mp again
    obtain ⟨belowI, atI⟩ := List.getElem?_eq_some_iff.mp there
    obtain ⟨belowJ, atJ⟩ := List.getElem?_eq_some_iff.mp found
    have belowI' : i < (s.connecting.map Prod.fst).length := by rwa [List.length_map]
    have belowJ' : j < (s.connecting.map Prod.fst).length := by rwa [List.length_map]
    have same : (s.connecting.map Prod.fst)[j] = (s.connecting.map Prod.fst)[i] := by rw [List.getElem_map, List.getElem_map, atI, atJ]
    exact different ((inv.once.getElem_inj_iff).mp same)
  refine ⟨inv.resolved, fun unloaded => ?_, inv.pending, fun c there => inv.below c (fewer.subset there), inv.once.sublist (fewer.map _),
    fun other there => inv.own other (fewer.subset there), fun _ _ link' last' => ?_, ?_⟩
  · rw [loaded] at unloaded
    cases unloaded
  · obtain rfl : link = link' := Option.some.inj (last.symm.trans last')
    refine applySelection_shows fun conn named => ?_
    rw [activate_active]
    exact (Option.filter_eq_some_iff.mp named).1
  · intro waiting
    rcases waiting with waiting | ⟨other, there⟩
    · rw [pending] at waiting
      cases waiting
    · exact absurd there (closed other)

/-- An earlier link's connect succeeds while the last link's is in flight. -/
theorem Inv.overtaken {s : App} {i n : ℕ} {link : DeepLink} (inv : Inv s) (there : s.connecting[i]? = some (n, link))
    (earlier : n ≠ s.followed.length) (opening : s.touched = false → s.opening) (quiet : Quiet s (s.view.activate link.conn)) :
    Inv (completed i true s) := by
  have passed := inv.passed there fun _ => earlier
  obtain ⟨-, pending⟩ := inv.settled (List.mem_of_getElem? there)
  rw [completed_ok there pending]
  refine ⟨passed.resolved, passed.unopened, passed.pending, passed.below, passed.once, passed.own, fun done untouched => ?_,
    fun waiting last named => ?_⟩
  · exact absurd (.inr ((opening_erase there earlier).mpr (opening untouched))) done
  · rcases waiting with waiting | ⟨other, member⟩
    · rw [pending] at waiting
      cases waiting
    · exact quiet pending ⟨other, (List.eraseIdx_sublist _ _).subset member⟩ last named

theorem Inv.step {s : App} {e : Event} (inv : Inv s) (orderly : Orderly s e) : Inv (step s e) := by
  cases e with
  | openLink link => exact inv.follow s.hash orderly
  | popstate hash =>
    unfold urlSync.step onPop
    unfold Orderly at orderly
    dsimp only at orderly ⊢
    split
    · rename_i empty
      rw [if_pos empty] at orderly
      exact ⟨inv.resolved, inv.unopened, inv.pending, inv.below, inv.once, inv.own, inv.shown, fun waiting => absurd waiting orderly⟩
    · rename_i some_
      rw [if_neg some_] at orderly
      exact inv.follow hash orderly
  | connections conns => exact inv.received orderly
  | completed i ok =>
    change Inv (completed i ok s)
    cases there : s.connecting[i]? with
    | none =>
      have same : completed i ok s = s := by rw [completed, there]
      rwa [same]
    | some c =>
      obtain ⟨n, link⟩ := c
      have ends := orderly n link there
      split at ends
      · rename_i own
        subst own
        cases ok with
        | false =>
          have same : completed i false s = { s with connecting := s.connecting.eraseIdx i } := by rw [completed, there]; rfl
          rw [same]
          exact inv.passed there fun untouched => absurd (ends untouched) Bool.false_ne_true
        | true => exact inv.opened there
      · rename_i earlier
        cases ok with
        | false =>
          have same : completed i false s = { s with connecting := s.connecting.eraseIdx i } := by rw [completed, there]; rfl
          rw [same]
          exact inv.passed there fun _ => earlier
        | true => exact inv.overtaken there earlier (ends rfl).1 (ends rfl).2
  | changed view => exact inv.changed orderly
  | saved ids => exact ⟨inv.resolved, inv.unopened, inv.pending, inv.below, inv.once, inv.own, inv.shown, inv.held⟩

/-- Every step is one that may happen. -/
def OrderlyRun : App → List Event → Prop
  | _, [] => True
  | s, e :: events => Orderly s e ∧ OrderlyRun (step s e) events

theorem Inv.run {s : App} {events : List Event} (inv : Inv s) (orderly : OrderlyRun s events) : Inv (events.foldl urlSync.step s) := by
  induction events generalizing s with
  | nil => exact inv
  | cons e events ih => exact ih (inv.step orderly.1) orderly.2

/-- A page that was just opened. -/
structure Fresh (s : App) : Prop where
  pending : s.pending = none
  connecting : s.connecting = []
  followed : s.followed = []

theorem Fresh.inv {s : App} (fresh : Fresh s) : Inv s := by
  have idle (c : ℕ × DeepLink) : c ∉ s.connecting := by
    rw [fresh.connecting]
    exact List.not_mem_nil
  have first (link : DeepLink) : s.last ≠ some link := by
    rw [App.last, fresh.followed]
    exact Option.some_ne_none link |>.symm
  refine ⟨fun _ => fresh.pending, fun _ => fresh.connecting, fun link pending => ?_, fun c member => absurd member (idle c), ?_,
    fun link member => absurd member (idle _), fun _ _ link last => absurd last (first link), fun _ link last => absurd last (first link)⟩
  · rw [fresh.pending] at pending
    cases pending
  · rw [fresh.connecting]
    exact List.nodup_nil

/-- The last link followed wins, and the address holds it while it waits, in every run from a page that is opened, if only steps
happen that may. -/
theorem last_wins {s : App} (fresh : Fresh s) (hash : Str) {events : List Event} (orderly : OrderlyRun s (.popstate hash :: events)) :
    Wins ((Event.popstate hash :: events).foldl step s) ∧ Holds ((Event.popstate hash :: events).foldl step s) :=
  ⟨(fresh.inv.run orderly).wins, (fresh.inv.run orderly).held⟩

end

/-! ### A link that is overtaken -/

/-- Queries without anything to escape. -/
@[reducible] def plainQueries : Browser where
  query pairs := ['&'].intercalate (pairs.map fun (k, v) => k ++ '=' :: v)
  params text k := ((text.splitOn '&').map fun pair => (pair.takeWhile (· ≠ '='), (pair.dropWhile (· ≠ '=')).drop 1)).lookup k
  number text := if text.isNone then some 0 else none

def atLine : App where
  connections := [⟨"c1".toList, true⟩]
  connectionsLoaded := true
  saved := ["line".toList]
  view := { activeConnId := some "c1".toList }

/-- A page opened at a bucket before the list of connections is there, and sent on to the alerts. -/
theorem last_wins_bucket :
    let events : List Event := [.popstate "#/kv?conn=c1&bucket=config".toList, .connections [⟨"c1".toList, true⟩], .popstate "#/alerts".toList]
    Wins (events.foldl (@step plainQueries) {}) ∧ @Holds plainQueries (events.foldl (@step plainQueries) {}) := by
  refine @last_wins plainQueries {} ⟨rfl, rfl, rfl⟩ "#/kv?conn=c1&bucket=config".toList
    [.connections [⟨"c1".toList, true⟩], .popstate "#/alerts".toList] ⟨?_, ?_, ?_, trivial⟩
  · unfold Orderly
    dsimp only
    rw [if_neg (by decide +kernel)]
    exact fun _ _ => rfl
  · have pending : (@step plainQueries {} (.popstate "#/kv?conn=c1&bucket=config".toList)).pending =
        some { module := some .kv, conn := some "c1".toList, bucket := some "config".toList } := by decide +kernel
    unfold Orderly
    dsimp only
    rw [pending]
    intro conn named
    obtain rfl : "c1".toList = conn := Option.some.inj named
    exact .inl (by decide +kernel)
  · have connless : given (@parseLink plainQueries "#/alerts".toList).conn = none := by decide +kernel
    unfold Orderly
    dsimp only
    rw [if_neg (by decide +kernel)]
    exact fun _ named => absurd (connless.symm.trans named) (Option.some_ne_none _).symm

/-- The link to a stream behind a connection that is only saved, and what the page is at then. -/
def lineLink : DeepLink := { module := some .jetstream, conn := some "line".toList, stream := some "ORDERS".toList }

def lineOpening : App := @onPop plainQueries "#/jetstream?conn=line&stream=ORDERS".toList atLine

/-- The address loses a link whose connect is in flight, and the link, once it is connected, takes the place of one followed since. -/
theorem overtaken :
    (lineOpening.last = some lineLink ∧ lineOpening.waits ∧ lineOpening.hash = "#/jetstream?conn=c1".toList ∧ ¬ @Holds plainQueries lineOpening) ∧
      let s := @step plainQueries (@step plainQueries lineOpening (.popstate "#/alerts".toList)) (.completed 0 true)
      s.last = some { module := some .alerts } ∧ s.view.module = .jetstream ∧ ¬ Wins s := by
  have last : lineOpening.last = some lineLink := by decide +kernel
  have waits : lineOpening.waits := .inr ⟨lineLink, by decide +kernel⟩
  have hash : lineOpening.hash = "#/jetstream?conn=c1".toList := by decide +kernel
  refine ⟨⟨last, waits, hash, fun holds => ?_⟩, ?_⟩
  · have read_ := holds waits lineLink last
    rw [hash] at read_
    exact absurd read_ (by decide +kernel)
  · have alerts : (@step plainQueries (@step plainQueries lineOpening (.popstate "#/alerts".toList)) (.completed 0 true)).last =
        some { module := some .alerts } := by decide +kernel
    have stream : (@step plainQueries (@step plainQueries lineOpening (.popstate "#/alerts".toList)) (.completed 0 true)).view.module =
        .jetstream := by decide +kernel
    refine ⟨alerts, stream, fun wins => ?_⟩
    have shown := wins (by decide +kernel) (by decide +kernel) (by decide +kernel) _ alerts
    have module := (shown.1 .alerts rfl).1
    rw [stream] at module
    cases module

end urlSync
end NatsExplorer.Client
