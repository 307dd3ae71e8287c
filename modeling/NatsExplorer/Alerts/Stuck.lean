import NatsExplorer.Alerts.Subjects

/-! When a subject is reported stuck. The state knows how many messages there ever were and since
when the newest value is there, and not whether that value came more than once. -/
namespace NatsExplorer.Alerts
open Go Engine

section Run
variable {α β : Type} [DecidableEq β] (value : α → β)

/-- The unbroken run of one value at the end. -/
def newestRun (ms : List α) : List α :=
  match ms.getLast? with
  | none => []
  | some last => ms.rtakeWhile fun m => value m = value last

variable {value} {ms : List α} {m last : α}

theorem newestRun_eq (final : ms.getLast? = some last) : newestRun value ms = ms.rtakeWhile fun m => value m = value last := by
  rw [newestRun, final]

theorem mem_newestRun (member : m ∈ newestRun value ms) (final : ms.getLast? = some last) : value m = value last := by
  rw [newestRun_eq final] at member
  have same := List.mem_rtakeWhile_imp member
  exact of_decide_eq_true same

theorem newestRun_append (ms : List α) (m : α) :
    newestRun value (ms ++ [m]) = ms.rtakeWhile (fun m' => value m' = value m) ++ [m] := by
  have final : (ms ++ [m]).getLast? = some m := by rw [List.getLast?_append, List.getLast?_singleton, Option.some_or]
  rw [newestRun_eq final]
  exact List.rtakeWhile_concat_pos _ _ m (decide_eq_true rfl)

/-- A value that is reported again goes on with the run. -/
theorem newestRun_same (final : ms.getLast? = some last) (same : value last = value m) :
    newestRun value (ms ++ [m]) = newestRun value ms ++ [m] := by
  rw [newestRun_append, newestRun_eq final, same]

/-- Another value starts one. -/
theorem newestRun_other (final : ms.getLast? = some last) (other : value last ≠ value m) :
    newestRun value (ms ++ [m]) = [m] := by
  obtain ⟨first, rfl⟩ := List.getLast?_eq_some_iff.mp final
  rw [newestRun_append, List.rtakeWhile_concat_neg _ _ _ (by simpa using other), List.nil_append]

theorem newestRun_ne_nil (value : α → β) (some : ms ≠ []) : newestRun value ms ≠ [] := by
  obtain ⟨last, final⟩ := Option.ne_none_iff_exists'.mp (mt List.getLast?_eq_none_iff.mp some)
  obtain ⟨first, rfl⟩ := List.getLast?_eq_some_iff.mp final
  rw [newestRun_append]
  exact List.append_ne_nil_of_right_ne_nil _ (List.cons_ne_nil _ _)

theorem exists_last_two {l : List α} (two : 2 ≤ l.length) : ∃ first m' m, l = first ++ [m', m] := by
  induction l using List.reverseRecOn with
  | nil => simp at two
  | append_singleton rest m _ =>
    induction rest using List.reverseRecOn with
    | nil => simp at two
    | append_singleton first m' _ => exact ⟨first, m', m, by rw [List.append_assoc]; rfl⟩

/-- The last two report one value, or the last is a run of its own. -/
theorem newestRun_two (value : α → β) (first : List α) (m' m : α) :
    (value m' = value m ∧ 2 ≤ (newestRun value (first ++ [m', m])).length) ∨
      (value m' ≠ value m ∧ newestRun value (first ++ [m', m]) = [m]) := by
  have split : first ++ [m', m] = (first ++ [m']) ++ [m] := by rw [List.append_assoc]; rfl
  have final : (first ++ [m']).getLast? = some m' := by rw [List.getLast?_append, List.getLast?_singleton, Option.some_or]
  rw [split]
  by_cases same : value m' = value m
  · refine .inl ⟨same, ?_⟩
    have some : newestRun value (first ++ [m']) ≠ [] := newestRun_ne_nil value (by simp)
    rw [newestRun_same final same, List.length_append, List.length_singleton]
    have := List.length_pos_of_ne_nil some
    omega
  · exact .inr ⟨same, newestRun_other final same⟩

end Run

section Repeated
variable {F : Type} [Numbers F] [Payloads F] (c : Compiled F)

/-- What a message reports. -/
def valueOf (m : Record × Nat) : Data := SubjectState.reported c m.1

/-- The value was reported at least twice, without change for longer than the rule allows, and the
alert says so. -/
structure Repeated (ms : List (Record × Nat)) (now : Nat) (st : SubjectState F) : Prop where
  twice : 2 ≤ (newestRun (valueOf c) ms).length
  value : ∀ m ∈ newestRun (valueOf c) ms, valueOf c m = st.lastValue
  old : ∀ first ∈ (newestRun (valueOf c) ms).head?, c.unchangedFor * 1000 < now - first.2
  named : st.stuckPreview = st.stuckText c now

/-- What a state knows of the messages. -/
structure Tracks (ms : List (Record × Nat)) (st : SubjectState F) : Prop where
  seen : st.seen = ms.length
  none : ms = [] → st.lastChange = 0
  value : ∀ m ∈ ms.getLast?, valueOf c m = st.lastValue
  since : ∀ first ∈ (newestRun (valueOf c) ms).head?, first.2 ≤ st.lastChange
  alone : ∀ m, newestRun (valueOf c) ms = [m] → st.lastChange = m.2

end Repeated

namespace SubjectState
variable {F : Type} [Numbers F] {c : Compiled F} {st : SubjectState F}

/-- What says whether the subject is stuck. -/
def tracked (st : SubjectState F) : Int × Data × Int × Bool := (st.seen, st.lastValue, st.lastChange, st.stuck)

/-- The value is new, or the first there is. -/
def moves [Payloads F] (c : Compiled F) (st : SubjectState F) (r : Record) : Bool :=
  st.lastChange = 0 ∨ reported c r ≠ st.lastValue

theorem observe_tracked [Payloads F] (st : SubjectState F) (asked : 0 < c.unchangedFor) (r : Record) (now : Int) :
    (st.observe c r now).1.tracked =
      (st.seen + 1, reported c r, if st.moves c r then now else st.lastChange, !st.moves c r && st.stuck) := by
  have arrived : (arrive now st).1.tracked = (st.seen + 1, st.lastValue, st.lastChange, st.stuck) := by
    unfold arrive noteGap
    split <;> rfl
  have woken (st : SubjectState F) : (wake r st).1.tracked = st.tracked := by
    unfold SubjectState.wake
    split <;> rfl
  have entered (st : SubjectState F) : (enter c r now st).1.tracked = st.tracked := by
    unfold SubjectState.enter
    split <;> rfl
  have evaluate (st : SubjectState F) : (evaluate c r now st).1.tracked = st.tracked := by
    unfold SubjectState.evaluate
    split <;> simp only
    · split <;> rfl
    · split <;> rfl
  have track (st : SubjectState F) : (track c r now st).1.tracked =
      (st.seen, reported c r, if st.moves c r then now else st.lastChange, !st.moves c r && st.stuck) := by
    unfold SubjectState.track
    by_cases moves : st.lastChange = 0 ∨ reported c r ≠ st.lastValue
    · rw [if_pos ⟨asked, moves⟩, SubjectState.moves, decide_eq_true moves]
      simp only
      split
      · rfl
      · rename_i loose
        rw [tracked, Bool.eq_false_iff.mpr loose]
        rfl
    · rw [if_neg (fun both => moves both.2), SubjectState.moves, decide_eq_false moves]
      simp only [not_or, not_not] at moves
      rw [moves.2]
      rfl
  simp only [observe, andThen, evaluate, track]
  have before := (entered (wake r (arrive now st).1).1).trans ((woken _).trans arrived)
  generalize (enter c r now (wake r (arrive now st).1).1).1 = st' at before ⊢
  simp only [tracked, Prod.mk.injEq] at before
  obtain ⟨seen, value, change, stuck⟩ := before
  have same : st'.moves c r = st.moves c r := by rw [moves, moves, value, change]
  rw [same, seen, change, stuck]

/-- Time only makes a subject stuck. -/
theorem tick_tracked (c : Compiled F) (st : SubjectState F) (now : Int) :
    (st.tick c now).1.tracked = (st.seen, st.lastValue, st.lastChange, st.stuck || st.unmoved c now) ∧
      (st.stuck = false → st.unmoved c now = true → (st.tick c now).1.stuckPreview = st.stuckText c now) := by
  have stale := checkStale_spec c now st
  have rate := checkRate_spec c now (checkStale c now st).1
  have level := checkLevel_spec c now (checkRate c now (checkStale c now st).1).1
  have before : (checkLevel c now (checkRate c now (checkStale c now st).1).1).1.tracked = st.tracked := by
    obtain ⟨b, stale, -⟩ := stale
    obtain ⟨pv, rate, -⟩ := rate
    obtain ⟨pv', level, -⟩ := level
    rw [level, rate, stale]
    rfl
  simp only [tick, checkWindow, andThen]
  generalize (checkLevel c now (checkRate c now (checkStale c now st).1).1).1 = st' at before ⊢
  simp only [tracked, Prod.mk.injEq] at before
  obtain ⟨seen, value, change, stuck⟩ := before
  have unmoved : st'.unmoved c now = st.unmoved c now := by rw [SubjectState.unmoved, SubjectState.unmoved, seen, change]
  have text : st'.stuckText c now = st.stuckText c now := by rw [stuckText, stuckText, value, change]
  rw [checkStuck, ← seen, ← value, ← change, ← stuck, ← unmoved, ← text]
  by_cases starts : ¬ st'.stuck ∧ st'.unmoved c now
  · rw [if_pos starts, starts.2, Bool.or_true]
    exact ⟨rfl, fun _ _ => rfl⟩
  · rw [if_neg starts]
    refine ⟨?_, fun loose unmoved => absurd ⟨by simp [loose], unmoved⟩ starts⟩
    cases held : st'.stuck with
    | true => rw [Bool.true_or, tracked, held]
    | false =>
      have moved : st'.unmoved c now = false := Bool.eq_false_iff.mpr fun unmoved => starts ⟨by simp [held], unmoved⟩
      rw [moved, Bool.or_false, tracked, held]

end SubjectState

section Tracks
variable {F : Type} [Numbers F] [Payloads F] {c : Compiled F} {ms : List (Record × Nat)} {st : SubjectState F}

theorem Tracks.message (tracks : Tracks c ms st) (asked : 0 < c.unchangedFor) (r : Record) (now : Nat) :
    Tracks c (ms ++ [(r, now)]) (st.observe c r now).1 := by
  have moved := SubjectState.observe_tracked st asked r now
  generalize (st.observe c r now).1 = st' at moved ⊢
  simp only [SubjectState.tracked, Prod.mk.injEq] at moved
  obtain ⟨seen, value, change, -⟩ := moved
  have final : (ms ++ [(r, now)]).getLast? = some (r, now) := by
    rw [List.getLast?_append, List.getLast?_singleton, Option.some_or]
  have last : ∀ m ∈ (ms ++ [(r, now)]).getLast?, valueOf c m = st'.lastValue := by
    intro m last
    rw [final] at last
    cases last
    exact value.symm
  have count : st'.seen = (ms ++ [(r, now)]).length := by
    rw [seen, tracks.seen, List.length_append]
    rfl
  by_cases again : ∃ last ∈ ms.getLast?, valueOf c last = valueOf c (r, now)
  · obtain ⟨last', its, same⟩ := again
    obtain ⟨first, rest, run⟩ := List.exists_cons_of_ne_nil 
      (newestRun_ne_nil (valueOf c) (List.getLast?_isSome.mp (Option.isSome_of_eq_some its)))
    have longer : newestRun (valueOf c) (ms ++ [(r, now)]) = first :: (rest ++ [(r, now)]) := by
      rw [newestRun_same its same, run, List.cons_append]
    have since : first.2 ≤ st.lastChange := tracks.since first (by rw [run]; rfl)
    have known : valueOf c (r, now) = st.lastValue := same.symm.trans (tracks.value last' its)
    refine ⟨count, fun none => absurd none (by simp), last, ?_, ?_⟩
    · rw [longer]
      rintro _ ⟨⟩
      rw [change]
      split
      · rename_i moves
        have zero : st.lastChange = 0 := (of_decide_eq_true moves).resolve_right fun other => other known
        omega
      · exact since
    · rw [longer]
      intro m one
      simp at one
  · have moves : st.moves c r = true := by
      refine decide_eq_true ?_
      cases its : ms.getLast? with
      | none => exact .inl (tracks.none (List.getLast?_eq_none_iff.mp its))
      | some last' => exact .inr fun same => again ⟨last', its, (tracks.value last' its).trans same.symm⟩
    have alone : newestRun (valueOf c) (ms ++ [(r, now)]) = [(r, now)] := by
      cases its : ms.getLast? with
      | none => rw [newestRun_append, List.getLast?_eq_none_iff.mp its]; rfl
      | some last' => exact newestRun_other its fun same => again ⟨last', its, same⟩
    rw [moves, if_pos rfl] at change
    refine ⟨count, fun none => absurd none (by simp), last, ?_, ?_⟩
    · rw [alone]
      rintro _ ⟨⟩
      exact change.ge
    · rw [alone]
      rintro _ ⟨⟩
      exact change

theorem Tracks.tick (tracks : Tracks c ms st) (now : Int) : Tracks c ms (st.tick c now).1 := by
  have still := (SubjectState.tick_tracked c st now).1
  generalize (st.tick c now).1 = st' at still ⊢
  simp only [SubjectState.tracked, Prod.mk.injEq] at still
  obtain ⟨seen, value, change, -⟩ := still
  exact ⟨seen ▸ tracks.seen, change ▸ tracks.none, value ▸ tracks.value, change ▸ tracks.since, change ▸ tracks.alone⟩

end Tracks

section Runs
variable {F : Type} [Tables] [Filter.Compiler] [Numbers F] [Payloads F] [DecidableEq F] {c : Compiled F}
  {connID subject : Str}

/-- A call makes a subject stuck only when its value was reported again, and another value ends it. -/
structure Right (c : Compiled F) (connID subject : Str) (e : Engine F) (before : List Call) (call : Call) : Prop where
  becomes : ((after e before).stateAt c connID subject).stuck = false →
    ((after e (before ++ [call])).stateAt c connID subject).stuck = true →
    ∃ rt now, call = .tick rt now ∧
      Repeated c (told connID subject before) now ((after e (before ++ [call])).stateAt c connID subject)
  ends : ∀ r now, call.turn connID subject = some (.message r now) → ∀ last ∈ (told connID subject before).getLast?,
    valueOf c last ≠ valueOf c (r, now) → ((after e (before ++ [call])).stateAt c connID subject).stuck = false

/-- No tick finds a value that was reported once, after another, for longer than the rule allows. -/
def Again (c : Compiled F) (connID subject : Str) (before : List Call) : Call → Prop
  | .tick _ now => ∀ first m' m, told connID subject before = first ++ [m', m] → valueOf c m' ≠ valueOf c m →
      m.2 = 0 ∨ now ≤ m.2 + c.unchangedFor * 1000
  | .observe .. => True

/-- A rule asks a subject not to stay unchanged, and its time counts in milliseconds. -/
structure Asks (e : Engine F) (c : Compiled F) (connID subject : Str) : Prop extends Followed e c connID subject where
  asked : 0 < c.unchangedFor
  bounded : c.unchangedFor * 1000 < 2 ^ 63

variable {e : Engine F} {before calls : List Call} {call : Call}

theorem Asks.tracks (asks : Asks e c connID subject) (before : List Call) :
    Tracks c (told connID subject before) ((after e before).stateAt c connID subject) := by
  induction before using List.reverseRecOn with
  | nil =>
    have start : (after e []).stateAt c connID subject = .fresh c.id connID subject := asks.fresh
    rw [start]
    exact ⟨rfl, fun _ => rfl, nofun, nofun, nofun⟩
  | append_singleton before call ih =>
    obtain ⟨r, now, -, state, ms⟩ | ⟨rt, now, -, state, ms⟩ | ⟨-, state, ms⟩ := asks.toFollowed.cases before call
    · rw [state, ms]
      exact ih.message asks.asked r now
    · rw [state, ms]
      exact ih.tick now
    · rw [state, ms]
      exact ih

omit [Tables] [Filter.Compiler] [Payloads F] [DecidableEq F] in
/-- The limit as the code multiplies it out. -/
theorem Asks.limit (asks : Asks e c connID subject) : mul64 c.unchangedFor 1000 = c.unchangedFor * 1000 := by
  have positive := asks.asked
  have bounded := asks.bounded
  exact Int.bmod_eq_of_le (by omega) (by omega)

omit [Tables] [Filter.Compiler] [Payloads F] [DecidableEq F] in
theorem Asks.unmoved_iff (asks : Asks e c connID subject) (st : SubjectState F) (now : Int) : st.unmoved c now = true ↔
    2 ≤ st.seen ∧ st.lastChange ≠ 0 ∧ c.unchangedFor * 1000 < now - st.lastChange := by
  simp only [SubjectState.unmoved, Bool.and_eq_true, decide_eq_true_eq, asks.limit, asks.asked, true_and, and_assoc]

theorem Asks.right (asks : Asks e c connID subject) (again : Again c connID subject before call) :
    Right c connID subject e before call := by
  have tracks := asks.tracks before
  have each := asks.toFollowed.cases before call
  constructor
  · intro loose stuck
    obtain ⟨r, now, -, state, -⟩ | ⟨rt, now, rfl, state, -⟩ | ⟨-, state, -⟩ := each
    · have moved := SubjectState.observe_tracked ((after e before).stateAt c connID subject) asks.asked r now
      rw [← state] at moved
      simp only [SubjectState.tracked, Prod.mk.injEq, loose, Bool.and_false, stuck] at moved
      exact absurd moved.2.2.2 nofun
    · refine ⟨rt, now, rfl, ?_⟩
      obtain ⟨still, said⟩ := SubjectState.tick_tracked c ((after e before).stateAt c connID subject) now
      rw [← state] at still said
      generalize (after e (before ++ [.tick rt now])).stateAt c connID subject = st' at stuck still said ⊢
      generalize (after e before).stateAt c connID subject = st at tracks loose still said ⊢
      simp only [SubjectState.tracked, Prod.mk.injEq, loose, Bool.false_or, stuck] at still
      obtain ⟨-, value, change, unmoved⟩ := still
      obtain ⟨two, since, late⟩ := (asks.unmoved_iff st now).mp unmoved.symm
      rw [tracks.seen] at two
      obtain ⟨first, m', m, ms⟩ := exists_last_two (Int.ofNat_le.mp two)
      have final : (told connID subject before).getLast? = some m := by
        rw [ms, List.getLast?_append]
        rfl
      have twice : 2 ≤ (newestRun (valueOf c) (told connID subject before)).length := by
        rw [ms]
        obtain ⟨-, twice⟩ | ⟨other, alone⟩ := newestRun_two (valueOf c) first m' m
        · exact twice
        · have its := tracks.alone m (ms ▸ alone)
          have short := again first m' m ms other
          omega
      refine ⟨twice, fun m' member => ?_, fun first head => ?_, ?_⟩
      · rw [mem_newestRun member final, value]
        exact tracks.value m final
      · have start := tracks.since first head
        omega
      · rw [said loose unmoved.symm, SubjectState.stuckText, SubjectState.stuckText, value, change]
    · rw [state, loose] at stuck
      cases stuck
  · intro r now turn last final other
    obtain ⟨r', now', its, state, -⟩ | ⟨rt, now', rfl, -, -⟩ | ⟨nothing, -, -⟩ := each
    · rw [turn] at its
      cases its
      have moved := SubjectState.observe_tracked ((after e before).stateAt c connID subject) asks.asked r now
      rw [← state] at moved
      simp only [SubjectState.tracked, Prod.mk.injEq] at moved
      have moves : ((after e before).stateAt c connID subject).moves c r = true :=
        decide_eq_true (.inr fun same => other ((tracks.value last final).trans same.symm))
      rw [moved.2.2.2, moves]
      rfl
    · cases turn
    · rw [nothing] at turn
      cases turn

/-- Before the limit is missed, a subject is stuck only in a run of two messages. -/
theorem Asks.twice (asks : Asks e c connID subject)
    (right : ∀ first call, first ++ [call] <+: before → Right c connID subject e first call)
    (stuck : ((after e before).stateAt c connID subject).stuck = true) :
    2 ≤ (newestRun (valueOf c) (told connID subject before)).length := by
  induction before using List.reverseRecOn with
  | nil =>
    have start : (after e []).stateAt c connID subject = .fresh c.id connID subject := asks.fresh
    rw [start] at stuck
    cases stuck
  | append_singleton before call ih =>
    have ih := ih fun first call' part => right first call' (part.trans (List.prefix_append _ _))
    have tracks := asks.tracks before
    have its := right before call List.prefix_rfl
    obtain ⟨r, now, -, state, ms⟩ | ⟨rt, now, rfl, state, ms⟩ | ⟨-, state, ms⟩ := asks.toFollowed.cases before call
    · have moved := SubjectState.observe_tracked ((after e before).stateAt c connID subject) asks.asked r now
      rw [← state] at moved
      simp only [SubjectState.tracked, Prod.mk.injEq, stuck, Bool.true_eq, Bool.and_eq_true, Bool.not_eq_true'] at moved
      obtain ⟨-, -, -, still, held⟩ := moved
      have longer := ih held
      rw [ms]
      cases final : (told connID subject before).getLast? with
      | none =>
        rw [List.getLast?_eq_none_iff.mp final] at longer
        exact absurd longer (Nat.not_succ_le_zero 1)
      | some last =>
        have known : valueOf c last = valueOf c (r, now) := by
          rw [tracks.value last final]
          by_contra other
          exact absurd (decide_eq_false_iff_not.mp still) (not_not.mpr (.inr fun same => other same.symm))
        rw [newestRun_same final known, List.length_append]
        omega
    · rw [ms]
      cases held : ((after e before).stateAt c connID subject).stuck with
      | true => exact ih held
      | false =>
        obtain ⟨_, _, _, repeated⟩ := its.becomes held stuck
        exact repeated.twice
    · rw [ms]
      exact ih (state ▸ stuck)

theorem Asks.again (asks : Asks e c connID subject)
    (right : ∀ first call', first ++ [call'] <+: before ++ [call] → Right c connID subject e first call') :
    Again c connID subject before call := by
  cases call with
  | observe => trivial
  | tick rt now =>
    intro first m' m ms other
    by_contra late
    rw [not_or, not_le] at late
    have alone : newestRun (valueOf c) (told connID subject before) = [m] := by
      rw [ms]
      exact ((newestRun_two (valueOf c) first m' m).resolve_left fun both => other both.1).2
    have tracks := asks.tracks before
    have its := tracks.alone m alone
    have loose : ((after e before).stateAt c connID subject).stuck = false := by
      refine Bool.eq_false_iff.mpr fun held => ?_
      have twice := asks.twice (fun first call' part => right first call' (part.trans (List.prefix_append _ _))) held
      rw [alone] at twice
      exact absurd twice (Nat.not_succ_le_self 1)
    have unmoved : ((after e before).stateAt c connID subject).unmoved c now = true := by
      refine (asks.unmoved_iff _ _).mpr ⟨?_, ?_, ?_⟩
      · rw [tracks.seen, ms, List.length_append, List.length_cons, List.length_singleton]
        omega
      · omega
      · omega
    obtain ⟨_, _, nothing, _⟩ | ⟨_, _, same, state, -⟩ | ⟨nothing, -, -⟩ := asks.toFollowed.cases before (.tick rt now)
    · cases nothing
    · cases same
      have stuck := (SubjectState.tick_tracked c ((after e before).stateAt c connID subject) now).1
      rw [← state, unmoved, Bool.or_true] at stuck
      simp only [SubjectState.tracked, Prod.mk.injEq] at stuck
      obtain ⟨_, _, _, repeated⟩ := (right before _ List.prefix_rfl).becomes loose stuck.2.2.2
      have twice := repeated.twice
      rw [alone] at twice
      exact absurd twice (Nat.not_succ_le_self 1)
    · cases nothing

/-- A subject is reported stuck rightly throughout a run exactly if no tick finds a value that was
reported once for too long. -/
theorem stuck_repeated {rules : List (Rule F)} (plain : ∀ rule ∈ rules, Plain rule.id) {rt : Runtime} {now : Int}
    {e : Engine F} (set : (new : Engine F).setRules rules rt now = .ok e) {c : Compiled F} (listed : c ∈ e.rules)
    (enabled : c.enabled = true) (asked : 0 < c.unchangedFor) (bounded : c.unchangedFor * 1000 < 2 ^ 63) {connID : Str}
    (conn : Plain connID) {subject : Str} (fits : matchSubject c.pattern subject = true) (calls : List Call) :
    (∀ before call, before ++ [call] <+: calls → Right c connID subject e before call) ↔
      ∀ before call, before ++ [call] <+: calls → Again c connID subject before call := by
  have asks : Asks e c connID subject := ⟨followed_set plain set listed enabled conn fits, asked, bounded⟩
  constructor
  · intro right before call part
    exact asks.again fun first call' part' => right first call' (part'.trans part)
  · intro again before call part
    exact asks.right (again before call part)

end Runs

section Sample

/-- A rule that asks a payload to change every second. -/
def moving : Rule Int where
  id := ['r']
  name := ['n']
  pattern := ['>']
  unchangedFor := 1
  enabled := true

def movingRule : Compiled Int where
  toRule := @Rule.completed Int asciiTables moving
  prog := none

def movingEngine : Engine Int where
  rules := [movingRule]
  byID := (∅ : Map Str (Compiled Int)).insert ['r'] movingRule
  states := ∅
  active := ∅
  maintenance := []
  notified := []

def said (text : Str) (now : Nat) : Call :=
  .observe ['c'] plain_c { beat with data := .text text } now

theorem moving_set : @setRules Int asciiTables yes samplePayloads _ new [moving] .plain 0 = .ok movingEngine := by
  rfl

theorem stuck_repeated_moving : let _ := asciiTables; let _ := yes; let _ := sampleNumbers; let _ := samplePayloads
    (∀ before call, before ++ [call] <+: [said ['a'] 1000, .tick .plain 4000] →
        Right movingRule ['c'] ['s'] movingEngine before call) ↔
      ∀ before call, before ++ [call] <+: [said ['a'] 1000, .tick .plain 4000] → Again movingRule ['c'] ['s'] before call := by
  intro _ _ _ _
  exact stuck_repeated (by decide) moving_set List.mem_cons_self rfl (by decide) (by decide) (by decide) (by decide)
    [said ['a'] 1000, .tick .plain 4000]

/-- Two values, each sent once. -/
theorem stuck_once : let _ := asciiTables; let _ := yes; let _ := sampleNumbers; let _ := samplePayloads
    ¬ Right movingRule ['c'] ['s'] movingEngine [said ['a'] 1000, said ['b'] 2000] (.tick .plain 4000) := by
  intro _ _ _ _ right
  obtain ⟨_, _, _, repeated⟩ := right.becomes (by decide) (by decide)
  exact absurd repeated.twice (by decide)

end Sample
end NatsExplorer.Alerts
