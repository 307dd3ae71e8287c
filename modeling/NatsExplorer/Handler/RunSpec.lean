import NatsExplorer.Filter
import NatsExplorer.Handler.Template
import Mathlib.Data.List.Induction
import Mathlib.Logic.Function.Basic

/-! A repeated send and its limits (`internal/handler/run.go`). -/
namespace NatsExplorer.Handler
open Go

/-- What a run, or a single request, has to live up to. -/
structure Expect (N : Type) where
  expr : Str
  maxLatencyMs : N
  deriving DecidableEq

/-- A repeated send as the HTTP body or a collection file describes it; durations are in nanoseconds. -/
structure RunSpec (N : Type) where
  mode : Str
  subject : Str
  payload : Str
  payloadType : Str
  /-- The values of a name, of which a map without it has none. -/
  headers : Str → List Str
  timeout : Int
  count : Int
  concurrency : Int
  interval : Int
  expect : Option (Expect N)

def runMaxCount : Int := 10000
def runMaxConcurrency : Int := 64

/-- `time.Duration(n) * time.Millisecond` -/
def millis (n : Int) : Int := (n * 10 ^ 6).bmod (2 ^ 64)

def second : Int := 10 ^ 9

/-- A pause within its bounds. -/
def pause (interval : Int) : Int := if interval < 0 then 0 else if 10 * second < interval then 10 * second else interval

/-- The bytes to be sent, before any placeholder in a text is filled in. -/
def sentBytes (payload payloadType : Str) : Option (List UInt8) :=
  if payloadType = "binary".toList then base64.decodeString payload else some (utf8 payload)

/-- Names and values by their trimmed names, of which there are no empty ones. -/
def collected (trim : Str → Str) (headers : List (Str × Str)) : Str → List Str :=
  headers.foldl (fun map h =>
    let k := trim h.1
    if k = [] then map else Function.update map k (map k ++ [h.2])) fun _ => []

section Collected
variable {trim trim' : Str → Str} {headers : List (Str × Str)}

theorem collected_append (h : Str × Str) : collected trim (headers ++ [h]) =
    if trim h.1 = [] then collected trim headers
    else Function.update (collected trim headers) (trim h.1) (collected trim headers (trim h.1) ++ [h.2]) := List.foldl_concat ..

theorem collected_eq (k : Str) : collected trim headers k = if k = [] then [] else (headers.filter fun h => trim h.1 = k).map Prod.snd := by
  induction headers using List.reverseRecOn with
  | nil => simp [collected]
  | append_singleton headers h ih =>
    rw [collected_append, List.filter_append, List.map_append]
    by_cases blank : trim h.1 = []
    · rw [if_pos blank, ih]
      split
      · rfl
      · next some_ =>
        have other : trim h.1 ≠ k := fun same => some_ (same.symm.trans blank)
        simp [other]
    · rw [if_neg blank]
      by_cases same : k = trim h.1
      · subst same
        rw [Function.update_self, ih]
        simp [blank]
      · rw [Function.update_of_ne same, ih]
        simp [Ne.symm same]

/-- Who has no name adds nothing. -/
theorem collected_filter {p : Str × Str → Bool} (dropped : ∀ h ∈ headers, p h = false → trim h.1 = []) :
    collected trim (headers.filter p) = collected trim headers := by
  funext k
  rw [collected_eq, collected_eq]
  split
  · rfl
  · next some_ =>
    rw [List.filter_filter]
    refine congrArg _ (List.filter_congr fun h here => ?_)
    cases kept : p h with
    | true => simp
    | false =>
      have other : trim h.1 ≠ k := fun same => some_ (same.symm.trans (dropped h here kept))
      simp [other]

/-- Two trims collect the same exactly if they agree on every name, where a name that is trimmed in both ways is the same
in both. -/
theorem collected_same (idem : ∀ s, trim (trim s) = trim s) (idem' : ∀ s, trim' (trim' s) = trim' s)
    (agree : ∀ s, trim' (trim s) = trim s → trim (trim' s) = trim' s → trim s = trim' s) (empty : trim [] = []) (empty' : trim' [] = []) :
    collected trim headers = collected trim' headers ↔ ∀ h ∈ headers, trim h.1 = trim' h.1 := by
  constructor
  · intro same
    -- a name that only one of them leaves cannot be left by the other
    have settled (f g : Str → Str) (fixed : ∀ s, g (g s) = g s) (nil : g [] = []) (both : collected f headers = collected g headers) :
        ∀ h ∈ headers, g (f h.1) = f h.1 := by
      intro h here
      by_cases blank : f h.1 = []
      · rw [blank, nil]
      · have listed := congrFun both (f h.1)
        rw [collected_eq, collected_eq, if_neg blank, if_neg blank] at listed
        have there : h.2 ∈ (headers.filter fun h' => f h'.1 = f h.1).map Prod.snd :=
          List.mem_map.mpr ⟨h, List.mem_filter.mpr ⟨here, decide_eq_true rfl⟩, rfl⟩
        rw [listed] at there
        obtain ⟨h', found, -⟩ := List.mem_map.mp there
        have left := of_decide_eq_true (List.mem_filter.mp found).2
        rw [← left, fixed]
    exact fun h here => agree h.1 (settled trim trim' idem' empty' same h here) (settled trim' trim idem empty same.symm h here)
  · intro each
    funext k
    have kept : (headers.filter fun h => trim h.1 = k) = headers.filter fun h => trim' h.1 = k :=
      List.filter_congr fun h here => by rw [each h here]
    rw [collected_eq, collected_eq, kept]

end Collected

namespace RunSpec
variable {N : Type}

/-- What the limits leave. -/
def limited (spec : RunSpec N) : RunSpec N :=
  let count := if spec.count < 1 then 1 else spec.count
  let concurrency := if spec.concurrency < 1 then 1 else spec.concurrency
  let concurrency := if runMaxConcurrency < concurrency then runMaxConcurrency else concurrency
  let timeout := if spec.timeout ≤ 0 then 5 * second else spec.timeout
  { spec with
    mode := if spec.mode ≠ "request".toList then "publish".toList else spec.mode
    count := count
    concurrency := if count < concurrency then count else concurrency
    timeout := if 60 * second < timeout then 60 * second else timeout
    interval := pause spec.interval }

def bytes (spec : RunSpec N) : Option (List UInt8) := sentBytes spec.payload spec.payloadType

end RunSpec

variable {N : Type} [Tables] [Filter.Compiler]

/-- An empty expression checks nothing. -/
def compileExpect : Option (Expect N) → Except Str (Option Filter.Program)
  | none => .ok none
  | some e =>
    if strings.trimSpace e.expr = [] then .ok none
    else
      match Filter.Compiler.compile e.expr with
      | .ok prog => .ok (some prog)
      | .error err => .error ("expect: ".toList ++ err)

/-- `Normalize`: the limits, or what a bad request would say. The error of the base64 decoder is given. -/
def RunSpec.normalize (notBase64 : Str → Str) (spec : RunSpec N) : Except Str (RunSpec N) :=
  if spec.subject = [] then .error "subject required".toList
  else if runMaxCount < spec.limited.count then .error ("count must be at most ".toList ++ Client.decimal runMaxCount)
  else
    match spec.bytes with
    | none => .error ("payload is not base64: ".toList ++ notBase64 spec.payload)
    | some _ =>
      match compileExpect spec.expect with
      | .error err => .error err
      | .ok _ => .ok spec.limited

/-- What a run needs to be taken. -/
structure RunSpec.Sound (spec : RunSpec N) : Prop where
  subject : spec.subject ≠ []
  count : spec.count ≤ runMaxCount
  payload : ∃ data, spec.bytes = some data
  expect : ∃ prog, compileExpect spec.expect = .ok prog

theorem RunSpec.normalize_ok {notBase64 : Str → Str} {spec spec' : RunSpec N} :
    spec.normalize notBase64 = .ok spec' ↔ spec' = spec.limited ∧ spec.Sound := by
  have limit : runMaxCount < spec.limited.count ↔ ¬ spec.count ≤ runMaxCount := by
    change 10000 < (if spec.count < 1 then 1 else spec.count) ↔ ¬ spec.count ≤ 10000
    split <;> omega
  unfold normalize
  split
  · next empty => exact iff_of_false nofun fun both => both.2.subject empty
  rename_i subject
  split
  · next above => exact iff_of_false nofun fun both => limit.mp above both.2.count
  rename_i below
  split
  · next none =>
    refine iff_of_false nofun fun both => ?_
    obtain ⟨data, some⟩ := both.2.payload
    rw [none] at some
    cases some
  · next data some =>
    split
    · next err failed =>
      refine iff_of_false nofun fun both => ?_
      obtain ⟨prog, compiled⟩ := both.2.expect
      rw [failed] at compiled
      cases compiled
    · next _ prog compiled =>
      have sound : spec.Sound := ⟨subject, not_not.mp fun above => below (limit.mpr above), ⟨data, some⟩, ⟨prog, compiled⟩⟩
      rw [Except.ok.injEq]
      exact ⟨fun same => ⟨same.symm, sound⟩, fun both => both.1.symm⟩

theorem compileExpect_ok (e : Expect N) :
    (∃ prog, compileExpect (some e) = .ok prog) ↔
      (strings.trimSpace e.expr ≠ [] → ∃ prog, Filter.Compiler.compile e.expr = .ok prog) := by
  rw [compileExpect]
  split
  · next blank => exact iff_of_true ⟨_, rfl⟩ fun some => absurd blank some
  · next some =>
    cases compiled : Filter.Compiler.compile e.expr with
    | ok prog => exact iff_of_true ⟨_, rfl⟩ fun _ => ⟨prog, rfl⟩
    | error err =>
      refine iff_of_false nofun fun needed => ?_
      obtain ⟨prog, ok⟩ := needed some
      cases ok

end NatsExplorer.Handler
