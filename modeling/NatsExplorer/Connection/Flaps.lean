import NatsExplorer.Go.Runtime
import NatsExplorer.Library.Transition

/-! The back-off of the live connection (`internal/connection/live.go`, `remember` and `explainDrop` of `drop.go`). Drops soon
after connecting are counted and earn a pause. An answer about an earlier drop takes back the last one counted; beside the
link the state has what really happened. -/
namespace NatsExplorer.Connection.Flaps
open Go Transition

/-- Times are nanoseconds. -/
def second : Int := 10 ^ 9

def reconnectWait : Int := 2 * second
def flapWindow : Int := 60 * second
def maxLivePause : Int := 60 * second

/-- The loop of `livePause`. -/
def doubled : ℕ → Int → Int
  | 0, d => d
  | n + 1, d => if d < maxLivePause then doubled n (d * 2) else d

def livePause (flaps : ℕ) : Int := if flaps ≤ 1 then 0 else min (doubled (flaps - 1) reconnectWait) maxLivePause

/-- The reconnect policy of a `link`; a zero time is none. -/
structure Link where
  upSince : Option Int := none
  dropNoted : Bool := false
  lameDuck : Bool := false
  tries : ℕ := 0
  lastTryAPIUp : Bool := false
  failedWhileAPIUp : ℕ := 0
  moving : Bool := false
  flaps : ℕ := 0
  pausedUntil : Option Int := none
  next : ℕ := 0
  tried : Map Str Int := ∅

namespace Link

/-- `noteDropLocked` -/
def noteDrop (l : Link) (now : Int) : Link :=
  if l.dropNoted then l
  else
    let flaps :=
      if l.lameDuck then 0
      else
        match l.upSince with
        | none => 0
        | some up => if flapWindow < now - up then 0 else l.flaps + 1
    { l with dropNoted := true, flaps := flaps, lameDuck := false, pausedUntil := some (now + livePause flaps) }

def notFlap (l : Link) : Link := { l with flaps := if 0 < l.flaps then l.flaps - 1 else l.flaps }

def lameDuckNoted (l : Link) : Link := { l with lameDuck := true }

/-- What `remember` does to the policy. -/
def remember (l : Link) (now : Int) : Link := { l with upSince := some now, dropNoted := false, tries := 0, failedWhileAPIUp := 0 }

/-- What `openLive` does to the policy. -/
def reset (l : Link) : Link := { l with flaps := 0, pausedUntil := none, tries := 0, failedWhileAPIUp := 0, moving := false }

/-- The count of failed attempts when the next one is asked for. -/
def failed (l : Link) (apiUp : Bool) : ℕ :=
  if 0 < l.tries ∧ l.lastTryAPIUp ∧ apiUp then l.failedWhileAPIUp + 1
  else if ¬ apiUp then 0
  else l.failedWhileAPIUp

/-- The connection is given up. -/
def movesOn (l : Link) (servers : List Str) (apiUp : Bool) : Bool := servers.length + 2 ≤ l.failed apiUp && !l.moving

/-- The server of the next attempt. -/
def server (l : Link) (servers : List Str) : Str := servers.getD ((l.next + 1) % servers.length) []

def wait (l : Link) (srv : Str) (now : Int) : Int :=
  let wait :=
    match l.tried.lookup srv with
    | some last => max (reconnectWait - (now - last)) 0
    | none => 0
  match l.pausedUntil with
  | some until_ => max wait (until_ - now)
  | none => wait

/-- `nextLiveServer` once the drop is noted. -/
def nextLiveServer (l : Link) (servers : List Str) (now : Int) (apiUp : Bool) : Link :=
  { l with
    failedWhileAPIUp := l.failed apiUp
    tries := l.tries + 1
    lastTryAPIUp := apiUp
    moving := l.moving || l.movesOn servers apiUp
    next := (l.next + 1) % servers.length
    tried := l.tried.insert (l.server servers) (now + l.wait (l.server servers) now) }

end Link

/-- A drop, of the connection that so many came before. -/
structure Drop where
  connection : ℕ
  opening : ℕ
  /-- Announced by lame duck, or later than `flapWindow` after connecting. -/
  ends : Bool
  /-- The server's answer: a slow consumer or not. -/
  answer : Option Bool := none
  deriving DecidableEq

/-- An attempt the link was told to make, and the pause it was told in. -/
structure Attempt where
  server : Str
  time : Int
  pausedUntil : Option Int

/-- The connection given up: how many servers there were, and when an attempt was asked for whether the API was up. -/
structure Move where
  servers : ℕ
  asks : List Bool

structure Live where
  link : Link := {}
  openings : ℕ := 0
  connects : ℕ := 0
  connectedAt : Option Int := none
  /-- Lame duck was announced since the last drop. -/
  announced : Bool := false
  /-- The newest first, as all of these. -/
  drops : List Drop := []
  attempts : List Attempt := []
  /-- Whether the API was up at each attempt asked for since the connection was up, or opened. -/
  asks : List Bool := []
  /-- Of this opening. -/
  moves : List Move := []

inductive Act where
  | opened
  | connected (now : Int)
  | lameDuck
  /-- The disconnect callback. -/
  | dropped (now : Int)
  | next (servers : List Str) (now : Int) (apiUp : Bool)
  /-- The server says why it closed the connection that `n` came before. -/
  | answer (n : ℕ) (slow : Bool)

/-- It counts for the series of an opening, until one ends it. -/
def Drop.current (opening : ℕ) (d : Drop) : Bool := !d.ends && d.opening = opening

/-- Answered with a reason other than slow consumer. -/
def Drop.excused (d : Drop) : Bool := d.answer = some false

namespace Live

/-- What really happened when a drop is noted. -/
def note (s : Live) (now : Int) : Live :=
  if ∃ d ∈ s.drops, d.connection = s.connects then { s with link := s.link.noteDrop now }
  else { s with
    link := s.link.noteDrop now
    announced := false
    drops := { connection := s.connects, opening := s.openings
               ends := s.announced || s.connectedAt.all fun up => flapWindow < now - up } :: s.drops }

/-- The drop is there, the link came back, and the server has not answered. -/
def Asked (s : Live) (n : ℕ) : Prop := n < s.connects ∧ ∃ d ∈ s.drops, d.connection = n ∧ d.answer = none

instance (s : Live) (n : ℕ) : Decidable (s.Asked n) := inferInstanceAs (Decidable (_ ∧ _))

def answered (n : ℕ) (slow : Bool) (d : Drop) : Drop := if d.connection = n then { d with answer := some slow } else d

def ask (s : Live) (servers : List Str) (now : Int) (apiUp : Bool) : Live :=
  let srv := s.link.server servers
  { s with
    link := s.link.nextLiveServer servers now apiUp
    asks := apiUp :: s.asks
    attempts := { server := srv, time := now + s.link.wait srv now, pausedUntil := s.link.pausedUntil } :: s.attempts
    moves := if s.link.movesOn servers apiUp then { servers := servers.length, asks := apiUp :: s.asks } :: s.moves else s.moves }

def step (s : Live) : Act → Live
  | .opened => { s with link := s.link.reset, openings := s.openings + 1, asks := [], moves := [] }
  | .connected now => { s with link := s.link.remember now, connects := s.connects + 1, connectedAt := some now, asks := [] }
  | .lameDuck => { s with link := s.link.lameDuckNoted, announced := true }
  | .dropped now => s.note now
  | .next servers now apiUp => if servers = [] then s else (s.note now).ask servers now apiUp
  | .answer n slow =>
    if s.Asked n then { s with link := if slow then s.link else s.link.notFlap, drops := s.drops.map (answered n slow) } else s

/-- The drops since the last one that ended a series. -/
def series (s : Live) : List Drop := s.drops.takeWhile (Drop.current s.openings)

end Live

/-- Failed attempts with the API up when they were asked for and when the next one was. -/
def failedWhileUp : List Bool → ℕ
  | up :: before :: rest => (if up && before then 1 else 0) + failedWhileUp (before :: rest)
  | _ => 0

/-- What the back-off promises. -/
structure Promised (s : Live) : Prop where
  flaps : s.link.flaps = s.series.countP fun d => !d.excused
  once : (s.drops.map Drop.connection).Nodup
  paused : ∀ a ∈ s.attempts, ∀ until_, a.pausedUntil = some until_ → until_ ≤ a.time
  apart : s.attempts.Pairwise fun later earlier => later.server = earlier.server → earlier.time + reconnectWait ≤ later.time
  moves : s.moves.length ≤ 1 ∧ ∀ m ∈ s.moves, m.servers + 2 ≤ failedWhileUp m.asks

/-- An answer that takes back a flap is about one that is counted. -/
def Explained (s : Live) : Act → Prop
  | .answer n false => s.Asked n → s.link.flaps = 0 ∨ ∃ d ∈ s.series, d.connection = n
  | _ => True

section Runs
open Live
variable {s : Live} {l : List Drop} {n : ℕ} {now : Int} {servers : List Str} {apiUp : Bool}

/-- The link says what really happened. -/
structure Tallied (s : Live) : Prop where
  promised : Promised s
  noted : s.link.dropNoted = true ↔ ∃ d ∈ s.drops, d.connection = s.connects
  up : s.link.upSince = s.connectedAt
  lame : s.link.lameDuck = s.announced
  past : ∀ d ∈ s.drops, d.connection ≤ s.connects ∧ d.opening ≤ s.openings
  tried : ∀ a ∈ s.attempts, ∃ time, s.link.tried.lookup a.server = some time ∧ a.time ≤ time
  tries : s.link.tries = s.asks.length
  lastTry : ∀ up rest, s.asks = up :: rest → s.link.lastTryAPIUp = up
  failed : s.link.failedWhileAPIUp ≤ failedWhileUp s.asks
  moving : s.link.moving = false → s.moves = []

theorem tallied_new : Tallied {} where
  promised := {
    flaps := rfl
    once := .nil
    paused := fun _ member => absurd member List.not_mem_nil
    apart := .nil
    moves := ⟨Nat.zero_le _, fun _ member => absurd member List.not_mem_nil⟩ }
  noted := ⟨fun noted => absurd noted Bool.false_ne_true, fun ⟨_, member, _⟩ => absurd member List.not_mem_nil⟩
  up := rfl
  lame := rfl
  past _ member := absurd member List.not_mem_nil
  tried _ member := absurd member List.not_mem_nil
  tries := rfl
  lastTry _ _ asked := nomatch asked
  failed := Nat.zero_le _
  moving _ := rfl

theorem tallied_opened (tallied : Tallied s) : Tallied (s.step .opened) where
  promised := {
    flaps := by
      have old : ∀ d ∈ s.drops, ¬ d.current (s.openings + 1) = true := by
        intro d member
        have := (tallied.past d member).2
        rw [Drop.current, Bool.and_eq_true, decide_eq_true_eq]
        omega
      have none : (s.step .opened).series = [] := by
        cases drops : s.drops with
        | nil =>
          simp only [Live.series, step, drops]
          rfl
        | cons d rest =>
          simp only [Live.series, step, drops]
          exact List.takeWhile_cons_of_neg (old d (drops ▸ List.mem_cons_self))
      rw [none]
      rfl
    once := tallied.promised.once
    paused := tallied.promised.paused
    apart := tallied.promised.apart
    moves := ⟨Nat.zero_le _, fun _ member => absurd member List.not_mem_nil⟩ }
  noted := tallied.noted
  up := tallied.up
  lame := tallied.lame
  past d member := ⟨(tallied.past d member).1, (tallied.past d member).2.trans (Nat.le_succ _)⟩
  tried := tallied.tried
  tries := rfl
  lastTry _ _ asked := nomatch asked
  failed := Nat.zero_le _
  moving _ := rfl

theorem tallied_connected (tallied : Tallied s) : Tallied (s.step (.connected now)) where
  promised := {
    flaps := tallied.promised.flaps
    once := tallied.promised.once
    paused := tallied.promised.paused
    apart := tallied.promised.apart
    moves := tallied.promised.moves }
  noted := by
    refine iff_of_false Bool.false_ne_true fun ⟨d, member, same⟩ => ?_
    have := (tallied.past d member).1
    simp only [step] at same
    omega
  up := rfl
  lame := tallied.lame
  past d member := ⟨(tallied.past d member).1.trans (Nat.le_succ _), (tallied.past d member).2⟩
  tried := tallied.tried
  tries := rfl
  lastTry _ _ asked := nomatch asked
  failed := Nat.zero_le _
  moving := tallied.moving

theorem tallied_lameDuck (tallied : Tallied s) : Tallied (s.step .lameDuck) where
  promised := {
    flaps := tallied.promised.flaps
    once := tallied.promised.once
    paused := tallied.promised.paused
    apart := tallied.promised.apart
    moves := tallied.promised.moves }
  noted := tallied.noted
  up := tallied.up
  lame := rfl
  past := tallied.past
  tried := tallied.tried
  tries := tallied.tries
  lastTry := tallied.lastTry
  failed := tallied.failed
  moving := tallied.moving

theorem flaps_noted {announced : Bool} {since : Option Int} {flaps : ℕ} :
    (if announced then 0 else
      match since with
      | none => 0
      | some up => if flapWindow < now - up then 0 else flaps + 1) =
      if (announced || since.all fun up => flapWindow < now - up) = true then 0 else flaps + 1 := by
  cases announced <;> cases since <;> simp

/-- A drop is counted once, as what it is. -/
theorem tallied_note (tallied : Tallied s) : Tallied (s.note now) := by
  by_cases known : ∃ d ∈ s.drops, d.connection = s.connects
  · have noted := tallied.noted.mpr known
    have same : s.note now = s := by
      unfold note Link.noteDrop
      rw [if_pos known, if_pos noted]
    rw [same]
    exact tallied
  · have fresh : s.link.dropNoted = false := Bool.eq_false_iff.mpr fun noted => known (tallied.noted.mp noted)
    let d : Drop := {
      connection := s.connects, opening := s.openings
      ends := s.announced || s.connectedAt.all fun up => flapWindow < now - up }
    have noted : s.note now = { s with link := s.link.noteDrop now, announced := false, drops := d :: s.drops } := if_neg known
    let flaps := if d.ends then 0 else s.link.flaps + 1
    have link : s.link.noteDrop now =
        { s.link with dropNoted := true, flaps := flaps, lameDuck := false, pausedUntil := some (now + livePause flaps) } := by
      have counted : (if s.link.lameDuck then 0 else
          match s.link.upSince with
          | none => 0
          | some up => if flapWindow < now - up then 0 else s.link.flaps + 1) = flaps := by
        rw [tallied.lame, tallied.up]
        exact flaps_noted
      unfold Link.noteDrop
      rw [if_neg (by rw [fresh]; exact Bool.false_ne_true)]
      simp only [counted]
    rw [noted, link]
    exact {
      promised := {
        flaps := by
          have series : ({ s with drops := d :: s.drops } : Live).series = if d.current s.openings then d :: s.series else [] :=
            List.takeWhile_cons ..
          have counted : (if d.current s.openings then d :: s.series else []).countP (fun d => !d.excused) = flaps := by
            by_cases ends : d.ends = true
            · rw [if_neg (by rw [Drop.current, ends]; exact Bool.false_ne_true)]
              exact (if_pos ends).symm
            · have current : d.current s.openings = true := by
                rw [Drop.current, Bool.eq_false_iff.mpr ends]
                exact decide_eq_true rfl
              rw [if_pos current, List.countP_cons_of_pos (by rfl), ← tallied.promised.flaps]
              exact (if_neg ends).symm
          exact counted.symm.trans (congrArg (List.countP fun d => !d.excused) series.symm)
        once := by
          refine List.nodup_cons.mpr ⟨fun member => ?_, tallied.promised.once⟩
          obtain ⟨d', there, same⟩ := List.mem_map.mp member
          exact known ⟨d', there, same⟩
        paused := tallied.promised.paused
        apart := tallied.promised.apart
        moves := tallied.promised.moves }
      noted := iff_of_true rfl ⟨d, List.mem_cons_self, rfl⟩
      up := tallied.up
      lame := rfl
      past := List.forall_mem_cons.mpr ⟨⟨le_rfl, le_rfl⟩, tallied.past⟩
      tried := tallied.tried
      tries := tallied.tries
      lastTry := tallied.lastTry
      failed := tallied.failed
      moving := tallied.moving }

theorem wait_ge (link : Link) (srv : Str) (now : Int) :
    (∀ last, link.tried.lookup srv = some last → last + reconnectWait ≤ now + link.wait srv now) ∧
      ∀ until_, link.pausedUntil = some until_ → until_ ≤ now + link.wait srv now := by
  unfold Link.wait
  constructor
  · intro last tried
    rw [tried]
    cases link.pausedUntil <;> simp only <;> omega
  · intro until_ paused
    rw [paused]
    simp only
    omega

theorem failed_le (tallied : Tallied s) : s.link.failed apiUp ≤ failedWhileUp (apiUp :: s.asks) := by
  have before := tallied.failed
  have tries := tallied.tries
  unfold Link.failed
  cases asks : s.asks with
  | nil =>
    rw [asks] at tries before
    rw [if_neg fun both => absurd both.1 (by rw [tries]; exact Nat.lt_irrefl 0)]
    split
    · exact Nat.zero_le _
    · exact before
  | cons up rest =>
    have last := tallied.lastTry up rest asks
    rw [asks] at before
    simp only [failedWhileUp]
    split
    · next both =>
      rw [last] at both
      rw [if_pos (by rw [both.2.1, both.2.2]; rfl)]
      omega
    · split
      · exact Nat.zero_le _
      · omega

theorem tallied_ask (tallied : Tallied s) : Tallied (s.ask servers now apiUp) := by
  have waits := wait_ge s.link (s.link.server servers) now
  have failed : s.link.failed apiUp ≤ failedWhileUp (apiUp :: s.asks) := failed_le tallied
  have earlier {a : Attempt} (member : a ∈ s.attempts) (same : s.link.server servers = a.server) :
      a.time + reconnectWait ≤ now + s.link.wait (s.link.server servers) now := by
    obtain ⟨time, tried, before⟩ := tallied.tried a member
    have := waits.1 time (same ▸ tried)
    omega
  exact {
    promised := {
      flaps := tallied.promised.flaps
      once := tallied.promised.once
      paused := List.forall_mem_cons.mpr ⟨waits.2, tallied.promised.paused⟩
      apart := List.pairwise_cons.mpr ⟨fun a member same => earlier member same, tallied.promised.apart⟩
      moves := by
        simp only [ask]
        split
        · next gone =>
          unfold Link.movesOn at gone
          rw [Bool.and_eq_true, decide_eq_true_eq, Bool.not_eq_true'] at gone
          rw [tallied.moving gone.2]
          exact ⟨le_rfl, List.forall_mem_singleton.mpr (gone.1.trans failed)⟩
        · exact tallied.promised.moves }
    noted := tallied.noted
    up := tallied.up
    lame := tallied.lame
    past := tallied.past
    tried := by
      refine List.forall_mem_cons.mpr ⟨⟨_, AList.lookup_insert _, le_rfl⟩, fun a member => ?_⟩
      by_cases same : a.server = s.link.server servers
      · rw [same]
        refine ⟨_, AList.lookup_insert _, ?_⟩
        have := earlier member same.symm
        unfold reconnectWait second at this
        omega
      · obtain ⟨time, tried, before⟩ := tallied.tried a member
        exact ⟨time, (AList.lookup_insert_ne same).trans tried, before⟩
    tries := congrArg (· + 1) tallied.tries
    lastTry := fun up rest asked => (List.cons.inj asked).1
    failed := failed
    moving := fun staying => by
      simp only [ask, Link.nextLiveServer, Bool.or_eq_false_iff] at staying ⊢
      rw [if_neg (by rw [staying.2]; exact Bool.false_ne_true)]
      exact tallied.moving staying.1 }

@[simp] theorem answered_connection (slow : Bool) (d : Drop) : (answered n slow d).connection = d.connection := by
  unfold answered
  split <;> rfl

@[simp] theorem answered_ends (slow : Bool) (d : Drop) : (answered n slow d).ends = d.ends := by
  unfold answered
  split <;> rfl

@[simp] theorem answered_opening (slow : Bool) (d : Drop) : (answered n slow d).opening = d.opening := by
  unfold answered
  split <;> rfl

theorem answered_other {slow : Bool} {d : Drop} (other : d.connection ≠ n) : answered n slow d = d := if_neg other

/-- An answer excuses the drop it is about and no other. -/
theorem countP_answered {slow : Bool} (nodup : (l.map Drop.connection).Nodup) (open_ : ∀ d ∈ l, d.connection = n → d.answer = none) :
    l.countP (fun d => !d.excused) =
      (l.map (answered n slow)).countP (fun d => !d.excused) + if slow = false ∧ n ∈ l.map Drop.connection then 1 else 0 := by
  induction l with
  | nil => simp
  | cons d l ih =>
    obtain ⟨fresh, nodup⟩ := List.nodup_cons.mp nodup
    obtain ⟨first, rest⟩ := List.forall_mem_cons.mp open_
    have later := ih nodup rest
    rw [List.map_cons, List.countP_cons, List.countP_cons]
    by_cases here : d.connection = n
    · have absent : n ∉ l.map Drop.connection := here ▸ fresh
      have before : (!d.excused) = true := by rw [Drop.excused, first here]; rfl
      have after : (!(answered n slow d).excused) = slow := by
        rw [answered, if_pos here]
        cases slow <;> rfl
      rw [before, after]
      cases slow
      · simp only [absent, and_false, if_false] at later
        simp [here, later]
      · simp only [Bool.true_eq_false, false_and, if_false] at later ⊢
        omega
    · rw [answered_other here]
      have same : n ∈ (d :: l).map Drop.connection ↔ n ∈ l.map Drop.connection := by
        rw [List.map_cons, List.mem_cons]
        exact or_iff_right fun is => here is.symm
      simp only [same]
      omega

theorem series_answered (slow : Bool) (link : Link) :
    ({ s with link := link, drops := s.drops.map (answered n slow) } : Live).series = s.series.map (answered n slow) := by
  have same : Drop.current s.openings ∘ answered n slow = Drop.current s.openings := by
    funext d
    simp only [Function.comp, Drop.current, answered_ends, answered_opening]
  exact (List.takeWhile_map ..).trans (congrArg (fun p => (s.drops.takeWhile p).map (answered n slow)) same)

/-- The count that is left, and what should be left. -/
theorem flaps_answered (tallied : Tallied s) (slow : Bool) (asked : s.Asked n) :
    s.link.flaps = (s.series.map (answered n slow)).countP (fun d => !d.excused) +
      if slow = false ∧ n ∈ s.series.map Drop.connection then 1 else 0 := by
  have part : s.series.Sublist s.drops := (List.takeWhile_prefix _).sublist
  obtain ⟨-, d, member, same, none⟩ := asked
  have open_ : ∀ d' ∈ s.series, d'.connection = n → d'.answer = Option.none := by
    intro d' there same'
    have is := List.inj_on_of_nodup_map tallied.promised.once (part.subset there) member (same'.trans same.symm)
    rw [is]
    exact none
  rw [tallied.promised.flaps]
  exact countP_answered (tallied.promised.once.sublist (part.map _)) open_

theorem notFlap_flaps (link : Link) : link.notFlap.flaps = link.flaps - 1 := by
  unfold Link.notFlap
  simp only
  split <;> omega

/-- Everything but the count is as it was after an answer. -/
theorem tallied_answer (tallied : Tallied s) {slow : Bool} (explained : Explained s (.answer n slow)) :
    Tallied (s.step (.answer n slow)) := by
  simp only [step]
  split
  · next asked =>
    have counted := flaps_answered tallied slow asked
    have connections : (s.drops.map (answered n slow)).map Drop.connection = s.drops.map Drop.connection := by
      rw [List.map_map]
      exact List.map_congr_left fun d _ => answered_connection slow d
    have there (k : ℕ) : (∃ d ∈ s.drops.map (answered n slow), d.connection = k) ↔ ∃ d ∈ s.drops, d.connection = k := by
      rw [← List.mem_map, connections, List.mem_map]
    let link := if slow then s.link else s.link.notFlap
    have flaps : link.flaps = (s.series.map (answered n slow)).countP (fun d => !d.excused) := by
      cases slow with
      | true => simpa only [link, if_true, Bool.true_eq_false, false_and, if_false, Nat.add_zero] using counted
      | false =>
        simp only [link, Bool.false_eq_true, if_false, notFlap_flaps]
        rcases explained asked with nothing | ⟨d, member, same⟩
        · omega
        · rw [if_pos ⟨rfl, List.mem_map.mpr ⟨d, member, same⟩⟩] at counted
          omega
    have others : link = { s.link with flaps := link.flaps } := by
      cases slow <;> rfl
    have noted : link.dropNoted = s.link.dropNoted := by rw [others]
    have up : link.upSince = s.link.upSince := by rw [others]
    have lame : link.lameDuck = s.link.lameDuck := by rw [others]
    have tried : link.tried = s.link.tried := by rw [others]
    have tries : link.tries = s.link.tries := by rw [others]
    have lastTry : link.lastTryAPIUp = s.link.lastTryAPIUp := by rw [others]
    have failed : link.failedWhileAPIUp = s.link.failedWhileAPIUp := by rw [others]
    have moving : link.moving = s.link.moving := by rw [others]
    refine {
      promised := {
        flaps := flaps.trans (congrArg (List.countP fun d => !d.excused) (series_answered slow link).symm)
        once := connections.symm ▸ tallied.promised.once
        paused := tallied.promised.paused
        apart := tallied.promised.apart
        moves := tallied.promised.moves }
      noted := (noted.symm ▸ tallied.noted).trans (there s.connects).symm
      up := up.trans tallied.up
      lame := lame.trans tallied.lame
      past := fun d member => ?_
      tried := fun a member => tried.symm ▸ tallied.tried a member
      tries := tries.trans tallied.tries
      lastTry := fun up rest asks => lastTry.trans (tallied.lastTry up rest asks)
      failed := failed.symm ▸ tallied.failed
      moving := fun staying => tallied.moving (moving.symm.trans staying) }
    obtain ⟨d', member', rfl⟩ := List.mem_map.mp member
    rw [answered_connection, answered_opening]
    exact tallied.past d' member'
  · exact tallied

theorem tallied_step (tallied : Tallied s) (a : Act) (explained : Explained s a) : Tallied (s.step a) := by
  cases a with
  | opened => exact tallied_opened tallied
  | connected now => exact tallied_connected tallied
  | lameDuck => exact tallied_lameDuck tallied
  | dropped now => exact tallied_note tallied
  | next servers now apiUp =>
    simp only [step]
    split
    · exact tallied
    · exact tallied_ask (tallied_note tallied)
  | answer n slow => exact tallied_answer tallied explained

/-- An answer that takes back the wrong flap is seen at once. -/
theorem explained_of_promised (tallied : Tallied s) (a : Act) (promised : Promised (s.step a)) : Explained s a := by
  cases a with
  | answer n slow =>
    cases slow with
    | true => trivial
    | false =>
      intro asked
      by_contra! both
      obtain ⟨some, none⟩ := both
      have counted := flaps_answered tallied false asked
      have absent : n ∉ s.series.map Drop.connection := fun member => by
        obtain ⟨d, there, same⟩ := List.mem_map.mp member
        exact none d there same
      rw [if_neg fun both => absent both.2, Nat.add_zero] at counted
      have after := promised.flaps
      simp only [step, if_pos asked, Bool.false_eq_true, if_false, notFlap_flaps] at after
      rw [series_answered, ← counted] at after
      omega
  | _ => trivial

/-- In every state of a run the flaps counted are the drops that make the series, no drop is counted twice, no attempt comes
before its pause or too soon after the last at its server, and the connection is given up once at most and for its reason,
exactly if every answer that takes back a flap is about one that is counted. -/
theorem promised_iff (acts : List Act) :
    (∀ before, before <+: acts → Promised (run step {} before)) ↔ Along step Explained {} acts :=
  visible_iff (P := Tallied) (fun tallied => tallied.promised) tallied_step explained_of_promised tallied_new

/-- The answer about a drop after a long uptime comes when the next drop is counted. -/
def lateAnswer : List Act :=
  [.opened, .connected 0, .dropped (61 * second), .connected (62 * second), .dropped (63 * second), .connected (64 * second), .answer 1 false]

/-- One flap is to be counted and none is. -/
theorem flaps_late :
    let s := run step {} lateAnswer
    s.link.flaps = 0 ∧ s.series.countP (fun d => !d.excused) = 1 ∧ ¬ Promised s := by
  refine ⟨by decide +kernel, by decide +kernel, fun promised => ?_⟩
  exact absurd promised.flaps (by decide +kernel)

end Runs

end NatsExplorer.Connection.Flaps
