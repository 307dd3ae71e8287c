import NatsExplorer.Alerts.Subjects

/-! Which message an expression is judged by. A subject is evaluated at most once a second, so what
holds after a burst is the verdict on the last message that had its turn. -/
namespace NatsExplorer.Alerts
open Go Engine

/-- The messages that are evaluated, the last one's time first: each at least a second after the one
before. -/
def evaluated : List (Record × Nat) → Int × Option Record :=
  List.foldl (fun (lastEval, judged) (r, now) =>
    if evalEvery ≤ (now : Int) - lastEval then ((now : Int), some r) else (lastEval, judged)) (0, none)

theorem evaluated_append (ms : List (Record × Nat)) (r : Record) (now : Nat) : evaluated (ms ++ [(r, now)]) =
    if evalEvery ≤ (now : Int) - (evaluated ms).1 then ((now : Int), some r) else evaluated ms := by
  rw [evaluated, List.foldl_append]
  rfl

namespace SubjectState
variable {F : Type} [Numbers F] {c : Compiled F}

/-- What says how the expression stands. -/
def judged (st : SubjectState F) : Int × Bool := (st.lastEval, st.firing)

theorem observe_judged [Payloads F] {prog : Filter.Program} (expression : c.prog = some prog) (r : Record) (now : Int)
    (st : SubjectState F) : (st.observe c r now).1.judged =
      if evalEvery ≤ now - st.lastEval then (now, prog.onRecord r) else st.judged := by
  have arrived : (arrive now st).1.judged = st.judged := by
    unfold arrive noteGap
    split <;> rfl
  have woken (st : SubjectState F) : (wake r st).1.judged = st.judged := by
    unfold wake
    split <;> rfl
  have entered (st : SubjectState F) : (enter c r now st).1.judged = st.judged := by
    unfold enter
    split <;> rfl
  have tracked (st : SubjectState F) : (track c r now st).1.judged = st.judged := by
    unfold track
    split
    · simp only
      split <;> rfl
    · rfl
  have turn (st : SubjectState F) : (evaluate c r now st).1.judged =
      if evalEvery ≤ now - st.lastEval then (now, prog.onRecord r) else st.judged := by
    unfold evaluate
    rw [expression]
    by_cases due : evalEvery ≤ now - st.lastEval
    · rw [decide_eq_true due, if_pos due]
      simp only
      cases hit : prog.onRecord r <;> cases firing : st.firing <;> simp [judged]
    · rw [decide_eq_false due, if_neg due]
      simp only
      split <;> rfl
  have before := (tracked (enter c r now (wake r (arrive now st).1).1).1).trans ((entered _).trans ((woken _).trans arrived))
  simp only [observe, andThen, turn]
  rw [before]
  exact congrArg (fun last => if evalEvery ≤ now - last then _ else st.judged) (congrArg Prod.fst before)

theorem tick_judged (now : Int) (st : SubjectState F) : (st.tick c now).1.judged = st.judged := by
  have stuck (st : SubjectState F) : (checkStuck c now st).1.judged = st.judged := by
    unfold checkStuck
    split <;> rfl
  obtain ⟨b, stale, -⟩ := checkStale_spec c now st
  have rate := checkRate_spec c now (checkStale c now st).1
  have level := checkLevel_spec c now (checkRate c now (checkStale c now st).1).1
  simp only [tick, checkWindow, andThen, stuck]
  obtain ⟨pv, rate, -⟩ := rate
  obtain ⟨pv', level, -⟩ := level
  rw [level, rate, stale]
  rfl

end SubjectState

section Runs
variable {F : Type} [Tables] [Filter.Compiler] [Numbers F] [Payloads F] [DecidableEq F] {e : Engine F} {c : Compiled F}
  {connID subject : Str}

/-- The condition stands as the expression said of the last message that was evaluated. -/
theorem Followed.judged (followed : Followed e c connID subject) {prog : Filter.Program} (expression : c.prog = some prog)
    (calls : List Call) : ((after e calls).stateAt c connID subject).judged =
      ((evaluated (told connID subject calls)).1, (evaluated (told connID subject calls)).2.any prog.onRecord) := by
  induction calls using List.reverseRecOn with
  | nil =>
    have start : (after e []).stateAt c connID subject = .fresh c.id connID subject := followed.fresh
    rw [start]
    rfl
  | append_singleton calls call ih =>
    obtain ⟨r, now, -, state, ms⟩ | ⟨rt, now, -, state, ms⟩ | ⟨-, state, ms⟩ := followed.cases calls call
    · have last : ((after e calls).stateAt c connID subject).lastEval = (evaluated (told connID subject calls)).1 :=
        congrArg Prod.fst ih
      rw [state, ms, SubjectState.observe_judged expression, evaluated_append, last, ih]
      split <;> rfl
    · rw [state, ms, SubjectState.tick_judged, ih]
    · rw [state, ms, ih]

/-- However long ago the newest message was, the condition is its verdict exactly if that is the
verdict on the last message that was evaluated. -/
theorem firing_newest {rules : List (Rule F)} (plain : ∀ rule ∈ rules, Plain rule.id) {rt : Runtime} {now : Int}
    {e : Engine F} (set : (new : Engine F).setRules rules rt now = .ok e) {c : Compiled F} (listed : c ∈ e.rules)
    (enabled : c.enabled = true) (asked : c.expr ≠ []) {connID : Str} (conn : Plain connID) {subject : Str}
    (fits : matchSubject c.pattern subject = true) (calls : List Call) :
    ∃ prog, Filter.Compiler.compile c.expr = .ok prog ∧
      ((∀ newest ∈ (told connID subject calls).getLast?,
          ((after e calls).stateAt c connID subject).firing = prog.onRecord newest.1) ↔
        ∀ newest ∈ (told connID subject calls).getLast?,
          (evaluated (told connID subject calls)).2.any prog.onRecord = prog.onRecord newest.1) := by
  obtain ⟨-, -, -, progs⟩ := compile_table (setRules_new set).1
  obtain ⟨prog, compiled, expression⟩ := progs c listed asked
  have followed := followed_set plain set listed enabled conn fits
  have stands : ((after e calls).stateAt c connID subject).firing = _ := congrArg Prod.snd (followed.judged expression calls)
  refine ⟨prog, compiled, ?_⟩
  rw [stands]

end Runs

section Sample

/-- Every expression asks whether the payload is `1`. -/
@[reducible] def isOne : Filter.Compiler where
  compile _ := .ok ⟨fun r => r.data = .text ['1'], fun _ => true⟩

def ones : Rule Int where
  id := ['r']
  name := ['n']
  pattern := ['>']
  expr := "payload == 1".toList
  enabled := true

def onesRule : Compiled Int where
  toRule := @Rule.completed Int asciiTables ones
  prog := some ⟨fun r => r.data = .text ['1'], fun _ => true⟩

def onesEngine : Engine Int where
  rules := [onesRule]
  byID := (∅ : Map Str (Compiled Int)).insert ['r'] onesRule
  states := ∅
  active := ∅
  maintenance := []
  notified := []

theorem ones_set : @setRules Int asciiTables isOne samplePayloads _ new [ones] .plain 0 = .ok onesEngine := by
  rfl

/-- A burst that ends with what does not fire. -/
def burst : List Call :=
  [.observe ['c'] plain_c beat 1000, .observe ['c'] plain_c { beat with data := .text ['2'] } 1500, .tick .plain 9000]

theorem firing_newest_burst : let _ := asciiTables; let _ := isOne; let _ := sampleNumbers; let _ := samplePayloads
    ∃ prog, Filter.Compiler.compile onesRule.expr = .ok prog ∧
      ((∀ newest ∈ (told ['c'] ['s'] burst).getLast?,
          ((after onesEngine burst).stateAt onesRule ['c'] ['s']).firing = prog.onRecord newest.1) ↔
        ∀ newest ∈ (told ['c'] ['s'] burst).getLast?,
          (evaluated (told ['c'] ['s'] burst)).2.any prog.onRecord = prog.onRecord newest.1) := by
  intro _ _ _ _
  exact firing_newest (by decide) ones_set List.mem_cons_self rfl (by decide) (by decide) (by decide) burst

/-- Seven seconds after the burst the alert still fires. -/
theorem firing_outdated : let _ := asciiTables; let _ := isOne; let _ := sampleNumbers; let _ := samplePayloads
    ∀ prog, Filter.Compiler.compile onesRule.expr = .ok prog →
      ¬ ∀ newest ∈ (told ['c'] ['s'] burst).getLast?,
        ((after onesEngine burst).stateAt onesRule ['c'] ['s']).firing = prog.onRecord newest.1 := by
  rintro _ _ _ _ _ ⟨⟩ follows
  exact absurd (follows ({ beat with data := .text ['2'] }, 1500) rfl) (by decide)

end Sample
end NatsExplorer.Alerts
