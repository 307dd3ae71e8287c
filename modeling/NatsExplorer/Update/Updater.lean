import NatsExplorer.Library.Transition
import NatsExplorer.Update.Release

/-! The one update of a running desktop app (`internal/update/update.go`): from the
network, from a package that was brought along, and back to the previous version. -/
namespace NatsExplorer.Update
open Go Files

inductive State where
  | idle
  | downloading
  | ready
  | failed
  deriving DecidableEq

structure Status where
  state : State
  version : Str := []
  error : String := ""

/-- What `run` and `InstallFile` do outside of the lock. -/
inductive Job (C : Type) where
  | online
  | offline (pkg : Except String C) (sums sig : Str)

inductive Origin where
  | put
  | rollback
  deriving DecidableEq

/-- What is looked at afterwards: a file that was given to `place`, with the version and
the one that ran; what was in place before files were moved, and what is kept since. -/
inductive Event (C : Type) where
  | place (file : C) (version running : Str)
  | keep (origin : Origin) (replaced kept : Option C)
  deriving DecidableEq

/-- The app, across its restarts. An empty `reason` is a copy that can update itself. -/
structure Updater (C Key : Type) where
  current : Str
  kind : Kind
  reason : String
  key : Option Key
  state : Status
  previous : Str
  disk : Disk C
  jobs : List (Job C)
  log : List (Event C)

def Disk.build {C : Type} (fs : Disk C) (name : Name) : Option C :=
  match fs name with
  | some (.build c) => some c
  | _ => none

namespace Updater
variable [Tables] {C Key : Type} [Packages C] [Signatures Key]

/-- A failure keeps what the status said of the previous version. -/
def finish (u : Updater C Key) (version : Str) (failure : Option String) : Updater C Key :=
  match failure with
  | some e => { u with state := { state := .failed, version := u.state.version, error := e } }
  | none => { u with state := { state := .ready, version := version }, previous := previousVersion u.disk }

/-- Puts a verified package in place of this installation. -/
def place (u : Updater C Key) (fails : Faults Name) (file : C) (version : Str) : Option String × Updater C Key :=
  let moved := put fails u.kind file u.disk
  let log := u.log ++ [.place file version u.current, .keep .put (u.disk.build .install) (moved.2.build .previous)]
  match moved with
  | (some e, fs) => (some ("putting " ++ String.ofList version ++ " in place: " ++ e), { u with disk := fs, log := log })
  | (none, fs) => (none, { u with disk := notePrevious fails u.current fs, log := log })

def start (u : Updater C Key) : Option String × Updater C Key :=
  if u.reason ≠ "" then (some u.reason, u)
  else if u.state.state = .idle ∨ u.state.state = .failed then
    (none, { u with state := { state := .downloading }, jobs := u.jobs ++ [.online] })
  else (none, u)

/-- The part of `InstallFile` under the lock. -/
def installFile (u : Updater C Key) (pkg : Except String C) (sums sig : Str) : Option String × Updater C Key :=
  if u.reason ≠ "" then (some u.reason, u)
  else if u.state.state = .downloading then (some "an update is already on its way", u)
  else if u.state.state = .ready then
    (some (String.ofList u.state.version ++ " is already in place: restart first"), u)
  else (none, { u with state := { state := .downloading }, jobs := u.jobs ++ [.offline pkg sums sig] })

/-- `install`, and what comes of it. -/
def online (u : Updater C Key) (net : Net C) (fails : Faults Name) : Updater C Key :=
  match net.newest with
  | .error e => u.finish [] (some e)
  | .ok rel =>
    if newer rel.version u.current then
      let u := { u with state := { state := .downloading, version := rel.version } }
      match fetch u.key u.kind net rel with
      | .error e => u.finish [] (some e)
      | .ok file => (u.place fails file rel.version).2.finish rel.version (u.place fails file rel.version).1
    else u.finish [] (some (String.ofList u.current ++ " is the newest release"))

/-- `installFile`, and what comes of it. -/
def offline (rt : Runtime) (u : Updater C Key) (fails : Faults Name) (pkg : Except String C) (sums sig : Str) :
    Updater C Key :=
  match recognise rt u.key u.kind u.current pkg sums sig with
  | .error e => u.finish [] (some e)
  | .ok (version, file) => (u.place fails file version).2.finish version (u.place fails file version).1

/-- The version in place, which an update waiting for its restart changed. -/
def inPlace (u : Updater C Key) : Str := if u.state.state = .ready then u.state.version else u.current

/-- Back at the running version there is nothing left to restart for. -/
def turnedBack (u : Updater C Key) : Status :=
  if u.previous = u.current then { state := .idle } else { state := .ready, version := u.previous }

/-- Puts the previous version back and keeps the one it replaces. -/
def rollback (u : Updater C Key) (fails : Faults Name) : Option String × Updater C Key :=
  if u.reason ≠ "" then (some u.reason, u)
  else if u.state.state = .downloading then (some "an update is on its way", u)
  else if u.previous = [] then (some "no previous version is kept here", u)
  else
    let moved := swapPrevious fails u.kind u.disk
    let log := u.log ++ [.keep .rollback (u.disk.build .install) (moved.2.build .previous)]
    match moved with
    | (some e, fs) => (some ("going back to " ++ String.ofList u.previous ++ ": " ++ e), { u with disk := fs, log := log })
    | (none, fs) =>
      let fs := notePrevious fails u.inPlace fs
      (none, { u with disk := fs, log := log, state := u.turnedBack, previous := previousVersion fs })

/-- Removes what an interrupted update left; the previous version stays. -/
def cleanup {C : Type} (fails : Faults Name) (fs : Disk C) : Disk C :=
  let fs := attempt (removeAll fails .update fs) fs
  let fs := attempt (removeAll fails .copy fs) fs
  attempt (removeAll fails .swap fs) fs

/-- The next start, of whatever version is in place: `New`, and the clean-up after it. -/
def restart (u : Updater C Key) (current : Str) (fails : Faults Name) : Updater C Key :=
  let u := { u with current := current, state := { state := .idle }, previous := [], jobs := [] }
  if u.reason ≠ "" then u
  else { u with previous := previousVersion u.disk, disk := cleanup fails u.disk }

/-- Calls, jobs that get to their end, and restarts, with what each meets. -/
inductive Action (C : Type) where
  | start
  | installFile (pkg : Except String C) (sums sig : Str)
  | run (job : Nat) (net : Net C) (fails : Faults Name)
  | rollback (fails : Faults Name)
  | restart (current : Str) (fails : Faults Name)

def step (rt : Runtime) (u : Updater C Key) : Action C → Updater C Key
  | .start => u.start.2
  | .installFile pkg sums sig => (u.installFile pkg sums sig).2
  | .run job net fails =>
    match u.jobs[job]? with
    | none => u
    | some .online => online { u with jobs := u.jobs.eraseIdx job } net fails
    | some (.offline pkg sums sig) => offline rt { u with jobs := u.jobs.eraseIdx job } fails pkg sums sig
  | .rollback fails => (u.rollback fails).2
  | .restart current fails => u.restart current fails

/-- An installation that was never updated. -/
def fresh (current : Str) (kind : Kind) (reason : String) (key : Option Key) (installed : C) : Updater C Key where
  current := current
  kind := kind
  reason := reason
  key := key
  state := { state := .idle }
  previous := []
  disk := fun name => if name = .install then some (.build installed) else none
  jobs := []
  log := []

/-- Kept as the previous version at some time, when it was what was in place. -/
def Kept {C : Type} (log : List (Event C)) (c : C) : Prop := ∃ origin, .keep origin (some c) (some c) ∈ log

/-- What holds between the steps. -/
structure Safe (u : Updater C Key) : Prop where
  placed : ∀ file version running, .place file version running ∈ u.log →
    Vouched u.key u.kind file version ∧ newer version running = true
  kept : ∀ c, u.disk.build .previous = some c → Kept u.log c

section Steps
variable {u v : Updater C Key} {fails : Faults Name} {file : C} {version : Str}

theorem Safe.same (safe : Safe u) (key : v.key = u.key) (kind : v.kind = u.kind) (log : v.log = u.log)
    (previous : v.disk .previous = u.disk .previous) : Safe v := by
  have kept : v.disk.build .previous = u.disk.build .previous := by
    unfold Disk.build
    rw [previous]
  constructor
  · rw [key, kind, log]
    exact safe.placed
  · rw [kept, log]
    exact safe.kept

omit [Packages C] [Signatures Key] in
theorem finish_frame (u : Updater C Key) (version : Str) (failure : Option String) :
    (u.finish version failure).key = u.key ∧ (u.finish version failure).kind = u.kind ∧
      (u.finish version failure).log = u.log ∧ (u.finish version failure).disk = u.disk := by
  cases failure <;> exact ⟨rfl, rfl, rfl, rfl⟩

theorem Safe.finish (safe : Safe u) (version : Str) (failure : Option String) : Safe (u.finish version failure) := by
  obtain ⟨key, kind, log, disk⟩ := finish_frame u version failure
  exact safe.same key kind log (by rw [disk])

omit [Tables] in
theorem Kept.mono {C : Type} {log more : List (Event C)} {c : C} (kept : Kept log c) : Kept (log ++ more) c := by
  obtain ⟨origin, member⟩ := kept
  exact ⟨origin, List.mem_append_left more member⟩

omit [Tables] in
/-- What is kept now was kept before or was in place just now. -/
theorem kept_moved {C : Type} {log more : List (Event C)} {fs fs' : Disk C} {origin : Origin}
    (before : ∀ c, fs.build .previous = some c → Kept log c) (moved : KeepsOld fs fs')
    (noted : .keep origin (fs.build .install) (fs'.build .previous) ∈ more) :
    ∀ c, fs'.build .previous = some c → Kept (log ++ more) c := by
  intro c held
  rcases moved with gone | same | old
  · unfold Disk.build at held
    rw [gone] at held
    cases held
  · have earlier : fs.build .previous = some c := by
      unfold Disk.build at held ⊢
      rwa [same] at held
    exact (before c earlier).mono
  · have replaced : fs.build .install = some c := by
      unfold Disk.build at held ⊢
      rwa [old] at held
    rw [replaced, held] at noted
    exact ⟨origin, List.mem_append_right log noted⟩

theorem Safe.place (safe : Safe u) (vouched : Vouched u.key u.kind file version)
    (newest : newer version u.current = true) : Safe (u.place fails file version).2 := by
  have frame : (u.place fails file version).2.key = u.key ∧ (u.place fails file version).2.kind = u.kind ∧
      (u.place fails file version).2.log = u.log ++ [.place file version u.current,
        .keep .put (u.disk.build .install) ((put fails u.kind file u.disk).2.build .previous)] ∧
      (u.place fails file version).2.disk .previous = (put fails u.kind file u.disk).2 .previous := by
    unfold Updater.place
    cases put fails u.kind file u.disk with
    | mk failure fs =>
      cases failure with
      | some e => exact ⟨rfl, rfl, rfl, rfl⟩
      | none => exact ⟨rfl, rfl, rfl, notePrevious_frame u.current (by decide)⟩
  obtain ⟨key, kind, log, previous⟩ := frame
  constructor
  · rw [key, kind, log]
    intro file' version' running member
    rcases List.mem_append.mp member with earlier | now
    · exact safe.placed file' version' running earlier
    · rcases List.mem_cons.mp now with same | rest
      · cases same
        exact ⟨vouched, newest⟩
      · cases List.mem_singleton.mp rest
  · have held : (u.place fails file version).2.disk.build .previous = (put fails u.kind file u.disk).2.build .previous := by
      unfold Disk.build
      rw [previous]
    rw [held, log]
    exact kept_moved safe.kept (put_keeps u.kind file) (List.mem_cons_of_mem _ List.mem_cons_self)

theorem Safe.online (safe : Safe u) (net : Net C) : Safe (u.online net fails) := by
  unfold Updater.online
  cases net.newest with
  | error e => exact safe.finish [] _
  | ok rel =>
    dsimp only
    by_cases newest : newer rel.version u.current = true
    · rw [if_pos newest]
      have progressed : Safe { u with state := { state := .downloading, version := rel.version } } :=
        safe.same rfl rfl rfl rfl
      cases fetched : fetch u.key u.kind net rel with
      | error e => exact progressed.finish [] _
      | ok file => exact (progressed.place (fetch_vouched fetched) newest).finish _ _
    · rw [if_neg newest]
      exact safe.finish [] _

theorem Safe.offline (safe : Safe u) (rt : Runtime) (pkg : Except String C) (sums sig : Str) :
    Safe (offline rt u fails pkg sums sig) := by
  unfold Updater.offline
  cases recognised : recognise rt u.key u.kind u.current pkg sums sig with
  | error e => exact safe.finish [] _
  | ok found =>
    obtain ⟨vouched, newest⟩ := recognise_vouched recognised
    exact (safe.place vouched newest).finish _ _

omit [Packages C] [Signatures Key] in
/-- A rollback is refused, or it swaps. -/
theorem rollback_frame (u : Updater C Key) (fails : Faults Name) : (u.rollback fails).2 = u ∨
    (u.rollback fails).2.key = u.key ∧ (u.rollback fails).2.kind = u.kind ∧
      (u.rollback fails).2.log = u.log ++ [.keep .rollback (u.disk.build .install)
        ((swapPrevious fails u.kind u.disk).2.build .previous)] ∧
      (u.rollback fails).2.disk .previous = (swapPrevious fails u.kind u.disk).2 .previous ∧
      (u.rollback fails).2.disk .install = (swapPrevious fails u.kind u.disk).2 .install := by
  unfold Updater.rollback
  split_ifs
  · exact Or.inl rfl
  · exact Or.inl rfl
  · exact Or.inl rfl
  · right
    cases swapPrevious fails u.kind u.disk with
    | mk failure fs =>
      cases failure with
      | some e => exact ⟨rfl, rfl, rfl, rfl, rfl⟩
      | none =>
        exact ⟨rfl, rfl, rfl, notePrevious_frame u.inPlace (by decide), notePrevious_frame u.inPlace (by decide)⟩

theorem Safe.rollback (safe : Safe u) (fails : Faults Name) : Safe (u.rollback fails).2 := by
  rcases rollback_frame u fails with same | ⟨key, kind, log, previous, -⟩
  · rw [same]
    exact safe
  · constructor
    · rw [key, kind, log]
      intro file version running member
      rcases List.mem_append.mp member with earlier | now
      · exact safe.placed file version running earlier
      · cases List.mem_singleton.mp now
    · have held : (u.rollback fails).2.disk.build .previous = (swapPrevious fails u.kind u.disk).2.build .previous := by
        unfold Disk.build
        rw [previous]
      rw [held, log]
      exact kept_moved safe.kept (swapPrevious_keeps u.kind).1 List.mem_cons_self

omit [Tables] [Packages C] [Signatures Key] in
theorem cleanup_previous (fs : Disk C) : cleanup fails fs .previous = fs .previous := by
  unfold cleanup
  rw [attempt_removeAll Name.swap _ (by decide), attempt_removeAll Name.copy _ (by decide),
    attempt_removeAll Name.update _ (by decide)]

theorem Safe.restart (safe : Safe u) (current : Str) (fails : Faults Name) : Safe (u.restart current fails) := by
  unfold Updater.restart
  dsimp only
  split
  · exact safe.same rfl rfl rfl rfl
  · exact safe.same rfl rfl rfl (cleanup_previous u.disk)

theorem Safe.step (rt : Runtime) (safe : Safe u) (action : Action C) : Safe (step rt u action) := by
  cases action with
  | start =>
    unfold Updater.step Updater.start
    dsimp only
    split_ifs
    · exact safe
    · exact safe.same rfl rfl rfl rfl
    · exact safe
  | installFile pkg sums sig =>
    unfold Updater.step Updater.installFile
    dsimp only
    split_ifs
    · exact safe
    · exact safe
    · exact safe
    · exact safe.same rfl rfl rfl rfl
  | run job net fails =>
    unfold Updater.step
    dsimp only
    have taken : Safe { u with jobs := u.jobs.eraseIdx job } := safe.same rfl rfl rfl rfl
    split
    · exact safe
    · exact taken.online net
    · exact taken.offline rt _ _ _
  | rollback fails => exact safe.rollback fails
  | restart current fails => exact safe.restart current fails

theorem Safe.fresh (current : Str) (kind : Kind) (reason : String) (key : Option Key) (installed : C) :
    Safe (fresh current kind reason key installed) := ⟨nofun, nofun⟩

/-- What a rollback puts in place was there, or had been kept. -/
theorem Safe.installs (safe : Safe u) {c : C} (installed : (u.rollback fails).2.disk.build .install = some c) :
    u.disk.build .install = some c ∨ Kept u.log c := by
  rcases rollback_frame u fails with same | ⟨-, -, -, -, install⟩
  · rw [same] at installed
    exact Or.inl installed
  · unfold Disk.build at installed
    rw [install] at installed
    rcases (swapPrevious_keeps u.kind).2 with gone | stays | back
    · rw [gone] at installed
      cases installed
    · rw [stays] at installed
      exact Or.inl installed
    · rw [back] at installed
      exact Or.inr (safe.kept c installed)

end Steps

section Exclusive
variable {u : Updater C Key}

/-- There is an update under way, or none, and the status says so. -/
def Exclusive (u : Updater C Key) : Prop := u.jobs = [] ∨ (∃ job, u.jobs = [job]) ∧ u.state.state = .downloading

omit [Tables] [Packages C] [Signatures Key] in
theorem Exclusive.free (exclusive : Exclusive u) (other : u.state.state ≠ .downloading) : u.jobs = [] :=
  exclusive.resolve_right fun busy => other busy.2

omit [Packages C] [Signatures Key] in
theorem finish_jobs (u : Updater C Key) (version : Str) (failure : Option String) :
    (u.finish version failure).jobs = u.jobs := by
  cases failure <;> rfl

omit [Tables] [Signatures Key] in
theorem place_jobs (u : Updater C Key) (fails : Faults Name) (file : C) (version : Str) :
    (u.place fails file version).2.jobs = u.jobs := by
  unfold place
  cases put fails u.kind file u.disk with
  | mk failure fs => cases failure <;> rfl

theorem online_jobs (u : Updater C Key) (net : Net C) (fails : Faults Name) : (u.online net fails).jobs = u.jobs := by
  unfold online
  cases net.newest with
  | error e => exact finish_jobs ..
  | ok rel =>
    dsimp only
    split
    · split
      · exact finish_jobs ..
      · exact (finish_jobs ..).trans (place_jobs ..)
    · exact finish_jobs ..

theorem offline_jobs (rt : Runtime) (u : Updater C Key) (fails : Faults Name) (pkg : Except String C) (sums sig : Str) :
    (offline rt u fails pkg sums sig).jobs = u.jobs := by
  unfold offline
  split
  · exact finish_jobs ..
  · exact (finish_jobs ..).trans (place_jobs ..)

/-- Calls that come while an update is under way are refused, so there is never a second. -/
theorem Exclusive.step (rt : Runtime) (exclusive : Exclusive u) (action : Action C) : Exclusive (step rt u action) := by
  cases action with
  | start =>
    unfold Updater.step start
    dsimp only
    split_ifs with _ resting
    · exact exclusive
    · refine Or.inr ⟨⟨.online, ?_⟩, rfl⟩
      rw [exclusive.free (by rcases resting with idle | failed <;> simp [*])]
      rfl
    · exact exclusive
  | installFile pkg sums sig =>
    unfold Updater.step installFile
    dsimp only
    split_ifs with _ busy
    · exact exclusive
    · exact exclusive
    · exact exclusive
    · refine Or.inr ⟨⟨.offline pkg sums sig, ?_⟩, rfl⟩
      rw [exclusive.free busy]
      rfl
  | run job net fails =>
    have taken (found : (u.jobs[job]?).isSome) : u.jobs.eraseIdx job = [] := by
      rcases exclusive with none | ⟨⟨only, one⟩, -⟩
      · rw [none]
        rfl
      · rw [one] at found ⊢
        cases job with
        | zero => rfl
        | succ job => cases found
    unfold Updater.step
    dsimp only
    split
    · exact exclusive
    · rename_i found
      exact Or.inl ((online_jobs ..).trans (taken (by rw [found]; rfl)))
    · rename_i found
      exact Or.inl ((offline_jobs ..).trans (taken (by rw [found]; rfl)))
  | rollback fails =>
    have resting : (u.rollback fails).2 = u ∨ u.state.state ≠ .downloading ∧ (u.rollback fails).2.jobs = u.jobs := by
      unfold rollback
      split_ifs with _ busy
      · exact Or.inl rfl
      · exact Or.inl rfl
      · exact Or.inl rfl
      · refine Or.inr ⟨busy, ?_⟩
        cases swapPrevious fails u.kind u.disk with
        | mk failure fs => cases failure <;> rfl
    unfold Updater.step
    dsimp only
    rcases resting with same | ⟨other, jobs⟩
    · rw [same]
      exact exclusive
    · exact Or.inl (jobs.trans (exclusive.free other))
  | restart current fails =>
    unfold Updater.step restart
    dsimp only
    split <;> exact Or.inl rfl

/-- The files of an installation are never moved by two updates at a time. -/
theorem run_exclusive (rt : Runtime) (current : Str) (kind : Kind) (reason : String) (key : Option Key) (installed : C)
    (actions : List (Action C)) :
    Exclusive (Transition.run (step rt) (fresh current kind reason key installed) actions) :=
  Transition.always (fun _ action exclusive => exclusive.step rt action) (Or.inl rfl)

end Exclusive

/-- Only files that the release key vouches for, of a newer version than the one that
runs, are put in place, and a rollback installs only what was kept. -/
theorem only_vouched (rt : Runtime) (current : Str) (kind : Kind) (reason : String) (key : Option Key) (installed : C)
    (actions : List (Action C)) :
    let u := Transition.run (step rt) (fresh current kind reason key installed) actions
    (∀ file version running, .place file version running ∈ u.log →
      Vouched u.key u.kind file version ∧ newer version running = true) ∧
    ∀ fails c, (u.rollback fails).2.disk.build .install = some c → u.disk.build .install = some c ∨ Kept u.log c := by
  have safe : Safe (Transition.run (step rt) (fresh current kind reason key installed) actions) :=
    Transition.always (fun u action safe => safe.step rt action) (Safe.fresh current kind reason key installed)
  exact ⟨safe.placed, fun fails c => safe.installs⟩

end Updater
end NatsExplorer.Update

namespace NatsExplorer.Update.Updater
open Go Files

/-! An update that was brought along, taken back, and taken back again. -/

@[reducible] def samplePackages : Packages Str where
  unpack _ c := .ok c
  sum _ := List.replicate 64 '0'
  size c := c.length

def sampleSums : Str := List.replicate 64 '0' ++ "  ".toList ++ asset .appImage ['2']

def updatedBack : Updater Str Unit :=
  let _ := asciiTables
  let _ := samplePackages
  let _ : Signatures Unit := ⟨fun _ _ _ => true⟩
  Transition.run (step .plain) (fresh ['1'] .appImage "" (some ()) ['o'])
    [.installFile (.ok ['n']) sampleSums [], .run 0 ⟨.error "", fun _ => .error "", fun _ => .error ""⟩ fun _ => none,
      .rollback fun _ => none]

theorem updatedBack_log : updatedBack.log = [.place ['n'] ['2'] ['1'], .keep .put (some ['o']) (some ['o']),
    .keep .rollback (some ['n']) (some ['n'])] := by
  decide +kernel

/-- The second rollback installs what no update kept, but the first rollback. -/
theorem forward_again : updatedBack.disk.build .install = some ['o'] ∧
    (@rollback asciiTables _ _ updatedBack fun _ => none).2.disk.build .install = some ['n'] ∧
      ∀ replaced, Event.keep .put replaced (some ['n']) ∉ updatedBack.log := by
  refine ⟨by decide +kernel, by decide +kernel, fun replaced member => ?_⟩
  rw [updatedBack_log] at member
  simp at member

end NatsExplorer.Update.Updater
