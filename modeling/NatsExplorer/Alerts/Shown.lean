import NatsExplorer.Alerts.Engine

/-! Whether the alert of a subject shows the condition that matters most. A condition
that ends looks for the one that is left. One that starts puts itself up, whatever else
holds, so in a tick it depends on what starts last. -/
namespace NatsExplorer.Alerts
open Go

/-- The state the alert of a subject shows after a change. -/
def Effect.shown (shown : Option State) : Effect → Option State
  | .change state _ _ => if state = .resolved then none else some state
  | .left state _ => shown.map fun _ => state
  | .update _ _ => shown

namespace SubjectState
variable {F : Type} {f g : SubjectState F → SubjectState F × List Effect} {st : SubjectState F}

/-- The condition the alert is to show. -/
def holds (st : SubjectState F) : Option State := st.current.map Prod.fst

def top (firing level rate stuck stale : Bool) : Option State :=
  if firing then some .firing else if level then some .level else if rate then some .rate
  else if stuck then some .stuck else if stale then some .stale else none

theorem holds_eq (st : SubjectState F) :
    st.holds = top st.firing st.level st.rate st.stuck st.stale := by
  simp only [holds, current, top]
  repeat' split
  all_goals rfl

/-- The conditions, the most important first. -/
def conditions (st : SubjectState F) : List Bool := [st.firing, st.level, st.rate, st.stuck, st.stale]

theorem holds_congr {st' : SubjectState F} (same : st'.conditions = st.conditions) :
    st'.holds = st.holds := by
  simp only [conditions, List.cons.injEq, and_true] at same
  obtain ⟨firing, level, rate, stuck, stale⟩ := same
  rw [holds_eq, holds_eq, firing, level, rate, stuck, stale]

theorem holds_isSome (some : true ∈ st.conditions) : st.holds.isSome := by
  rw [holds_eq, top]
  repeat' split
  all_goals simp_all [conditions]

theorem cleared_shown (preview : Str) {shown : Option State} (some : shown.isSome) :
    (st.cleared preview).shown shown = st.holds := by
  obtain ⟨state, rfl⟩ := Option.isSome_iff_exists.mp some
  unfold cleared holds
  cases st.current with
  | none => rfl
  | some _ => rfl

/-- The alert follows the state. -/
def Follows (f : SubjectState F → SubjectState F × List Effect) : Prop :=
  ∀ st, (f st).2.foldl Effect.shown st.holds = (f st).1.holds

theorem Follows.andThen (first : Follows f) (second : Follows g) : Follows (andThen f g) := by
  intro st
  simp only [SubjectState.andThen, List.foldl_append, first st, second (f st).1]

/-- A check keeps the names. -/
def Keeps (f : SubjectState F → SubjectState F × List Effect) : Prop :=
  ∀ st, (f st).1.ruleID = st.ruleID ∧ (f st).1.connID = st.connID ∧ (f st).1.subject = st.subject

theorem Keeps.andThen (first : Keeps f) (second : Keeps g) : Keeps (andThen f g) := by
  intro st
  obtain ⟨rule, conn, subject⟩ := first st
  obtain ⟨rule', conn', subject'⟩ := second (f st).1
  exact ⟨rule'.trans rule, conn'.trans conn, subject'.trans subject⟩

section Observe
variable (c : Compiled F) (r : Record) (now : Int)

theorem arrive_follows : Follows (F := F) (arrive now) := by
  intro st
  have same : (st.noteGap now).conditions = st.conditions := by
    unfold noteGap
    split <;> rfl
  exact (holds_congr same).symm

theorem wake_follows : Follows (F := F) (wake r) := by
  intro st
  unfold wake
  split
  · rename_i stale
    refine cleared_shown _ ?_
    exact holds_isSome (by simp [conditions, stale])
  · rfl

theorem evaluate_follows : Follows (evaluate c r now) := by
  intro st
  unfold evaluate
  split
  · simp only
    split
    · rw [holds_eq]
      rfl
    · rename_i firing
      refine cleared_shown _ ?_
      exact holds_isSome (by simp [conditions, firing])
    · rfl
  · refine (holds_congr ?_).symm
    split <;> rfl

variable [Numbers F] [Payloads F]

theorem enter_follows : Follows (enter c r now) := by
  intro st
  refine (holds_congr ?_).symm
  unfold enter
  split <;> rfl

theorem track_follows : Follows (track c r now) := by
  intro st
  unfold track
  split
  · simp only
    split
    · rename_i stuck
      refine cleared_shown _ ?_
      exact holds_isSome (by simp [conditions, stuck])
    · rfl
  · rfl

theorem observe_follows : Follows (observe c r now) :=
  (arrive_follows now).andThen ((wake_follows r).andThen ((enter_follows c r now).andThen
    ((track_follows c r now).andThen (evaluate_follows c r now))))

theorem observe_names : Keeps (observe c r now) := by
  have arrive : Keeps (F := F) (arrive now) := by
    intro st
    simp only [SubjectState.arrive, noteGap]
    split <;> exact ⟨rfl, rfl, rfl⟩
  have wake : Keeps (F := F) (wake r) := by
    intro st
    unfold SubjectState.wake
    split <;> exact ⟨rfl, rfl, rfl⟩
  have enter : Keeps (enter c r now) := by
    intro st
    simp only [SubjectState.enter]
    split <;> exact ⟨rfl, rfl, rfl⟩
  have track : Keeps (track c r now) := by
    intro st
    unfold SubjectState.track
    split
    · simp only
      split <;> exact ⟨rfl, rfl, rfl⟩
    · exact ⟨rfl, rfl, rfl⟩
  have evaluate : Keeps (evaluate c r now) := by
    intro st
    unfold SubjectState.evaluate
    split <;> simp only
    · split <;> exact ⟨rfl, rfl, rfl⟩
    · split <;> exact ⟨rfl, rfl, rfl⟩
  exact arrive.andThen (wake.andThen (enter.andThen (track.andThen evaluate)))

end Observe

section Tick
variable [Numbers F] (c : Compiled F) (now : Int)

def rateAfter (st : SubjectState F) : Bool :=
  match st.watched c now with
  | none => st.rate
  | some t => if c.minCount.isSome || c.maxCount.isSome then (st.rateVerdict c now t).1 else st.rate

def levelAfter (st : SubjectState F) : Bool :=
  match st.watched c now with
  | none => st.level
  | some t => if c.hasAggregate then (levelVerdict c t).1 else st.level

/-- What starts or ends last in a tick does not start below something that holds. -/
def Settled (st : SubjectState F) : Prop :=
  if ¬ st.stuck ∧ st.unmoved c now then ¬ st.firing ∧ ¬ st.levelAfter c now ∧ ¬ st.rateAfter c now
  else if st.levelAfter c now ≠ st.level then st.levelAfter c now → ¬ st.firing
  else if st.rateAfter c now ≠ st.rate then st.rateAfter c now → ¬ st.firing ∧ ¬ st.level
  else ¬ st.stale ∧ st.silent c now → ¬ st.firing ∧ ¬ st.level ∧ ¬ st.rate ∧ ¬ st.stuck

/-- What a check of one condition does to the alert. -/
structure Checked (st : SubjectState F) (effects : List Effect) (before after : Bool) (state : State) :
    Prop where
  same (shown) : after = before → effects.foldl Effect.shown shown = shown
  starts (shown) : before = false → after = true → effects.foldl Effect.shown shown = some state
  ends {shown : Option State} : before = true → after = false → shown.isSome →
    effects.foldl Effect.shown shown = st.holds

omit [Numbers F] in
theorem Checked.still (st : SubjectState F) (b : Bool) (state : State) : Checked st [] b b state where
  same _ _ := rfl
  starts _ off on := by simp [off] at on
  ends on off := by simp [on] at off

omit [Numbers F] in
theorem judge_spec {state : State} {on : SubjectState F → Bool} {said : SubjectState F → Str}
    {put : SubjectState F → Bool → Str → SubjectState F} (real : state ≠ .resolved)
    (lens : ∀ st, put st (on st) (said st) = st) (verdict : Bool × Str) (st : SubjectState F) :
    ∃ pv, (judge state on said put verdict st).1 = put st verdict.1 pv ∧
      Checked (judge state on said put verdict st).1 (judge state on said put verdict st).2 (on st)
        verdict.1 state := by
  obtain ⟨hit, pv⟩ := verdict
  have raised (shown : Option State) (pv : Str) (seen : Int) :
      (Effect.change state pv seen).shown shown = some state := if_neg real
  cases hit <;> cases before : on st <;> simp only [judge, before]
  · exact ⟨said st, (before ▸ lens st).symm, .still ..⟩
  · refine ⟨said st, rfl, by simp, by simp, fun _ _ shown => cleared_shown pv shown⟩
  · exact ⟨pv, rfl, by simp, fun shown _ _ => raised shown pv (put st true pv).lastSeen, by simp⟩
  · split
    · exact ⟨said st, (before ▸ lens st).symm, .still ..⟩
    · exact ⟨pv, rfl, fun _ _ => rfl, by simp, by simp⟩

theorem checkRate_spec (st : SubjectState F) :
    ∃ pv, (checkRate c now st).1 = { st with rate := st.rateAfter c now, ratePreview := pv } ∧
      Checked (checkRate c now st).1 (checkRate c now st).2 st.rate (st.rateAfter c now) .rate := by
  unfold checkRate rateAfter
  cases st.watched c now with
  | none => exact ⟨st.ratePreview, rfl, .still ..⟩
  | some t =>
    simp only
    split
    · exact judge_spec (by decide) (fun _ => rfl) _ st
    · exact ⟨st.ratePreview, rfl, .still ..⟩

theorem checkLevel_spec (st : SubjectState F) :
    ∃ pv, (checkLevel c now st).1 = { st with level := st.levelAfter c now, levelPreview := pv } ∧
      Checked (checkLevel c now st).1 (checkLevel c now st).2 st.level (st.levelAfter c now) .level := by
  unfold checkLevel levelAfter
  cases st.watched c now with
  | none => exact ⟨st.levelPreview, rfl, .still ..⟩
  | some t =>
    simp only
    split
    · exact judge_spec (by decide) (fun _ => rfl) _ st
    · exact ⟨st.levelPreview, rfl, .still ..⟩

omit [Numbers F] in
theorem checkStale_spec (st : SubjectState F) :
    ∃ b, (checkStale c now st).1 = { st with stale := b } ∧
      if ¬ st.stale ∧ st.silent c now then
        b = true ∧ ∀ shown, (checkStale c now st).2.foldl Effect.shown shown = some .stale
      else b = st.stale ∧ ∀ shown, (checkStale c now st).2.foldl Effect.shown shown = shown := by
  unfold checkStale
  split
  · exact ⟨true, rfl, rfl, fun _ => rfl⟩
  · exact ⟨st.stale, rfl, rfl, fun _ => rfl⟩

omit [Numbers F] in
theorem checkStuck_spec (st : SubjectState F) :
    if ¬ st.stuck ∧ st.unmoved c now then
      (checkStuck c now st).1.holds = top st.firing st.level st.rate true st.stale ∧
        ∀ shown, (checkStuck c now st).2.foldl Effect.shown shown = some .stuck
    else checkStuck c now st = (st, []) := by
  unfold checkStuck
  split
  · exact ⟨holds_eq _, fun _ => rfl⟩
  · rfl

/-- A tick leaves the alert showing what holds exactly if it is settled. -/
theorem tick_shown (st : SubjectState F) :
    (st.tick c now).2.foldl Effect.shown st.holds = (st.tick c now).1.holds ↔ st.Settled c now := by
  obtain ⟨b, isStale, stale⟩ := checkStale_spec c now st
  simp only [tick, checkWindow, andThen, List.foldl_append]
  generalize (checkStale c now st).2 = e₁, (checkStale c now st).1 = st₁ at isStale stale ⊢
  obtain ⟨pv, isRate, rate⟩ := checkRate_spec c now st₁
  generalize (checkRate c now st₁).2 = e₂, (checkRate c now st₁).1 = st₂ at isRate rate ⊢
  obtain ⟨pv', isLevel, level⟩ := checkLevel_spec c now st₂
  generalize (checkLevel c now st₂).2 = e₃, (checkLevel c now st₂).1 = st₃ at isLevel level ⊢
  have stuck := checkStuck_spec c now st₃
  have rateAfter : st₁.rateAfter c now = st.rateAfter c now := by rw [isStale]; rfl
  have levelAfter : st₂.levelAfter c now = st.levelAfter c now := by rw [isRate, isStale]; rfl
  have unmoved : st₃.unmoved c now = st.unmoved c now := by rw [isLevel, isRate, isStale]; rfl
  have sameStuck : st₃.stuck = st.stuck := by rw [isLevel, isRate, isStale]
  have holds₁ : st₁.holds = top st.firing st.level st.rate st.stuck b := by rw [isStale, holds_eq]
  have holds₂ : st₂.holds = top st.firing st.level (st.rateAfter c now) st.stuck b := by
    rw [← rateAfter, isRate, isStale, holds_eq]
  have holds₃ : st₃.holds = top st.firing (st.levelAfter c now) (st.rateAfter c now) st.stuck b := by
    rw [← levelAfter, ← rateAfter, isLevel, isRate, isStale, holds_eq]
  have last : top st₃.firing st₃.level st₃.rate true st₃.stale =
      top st.firing (st.levelAfter c now) (st.rateAfter c now) true b := by
    rw [← levelAfter, ← rateAfter, isLevel, isRate, isStale]
  rw [rateAfter, isStale] at rate
  rw [levelAfter, isRate, isStale] at level
  rw [sameStuck, unmoved, last] at stuck
  simp only at rate level
  unfold Settled
  generalize st.levelAfter c now = l, st.rateAfter c now = r at *
  clear isStale isRate isLevel rateAfter levelAfter unmoved sameStuck last
  have some₁ (holding : true ∈ st.conditions) : (e₁.foldl Effect.shown st.holds).isSome := by
    split at stale
    · rw [stale.2]
      rfl
    · rw [stale.2]
      exact holds_isSome holding
  by_cases starts : ¬ st.stuck ∧ st.unmoved c now
  · rw [if_pos starts] at stuck ⊢
    rw [stuck.1, stuck.2]
    cases st.firing <;> cases l <;> cases r <;> simp [top]
  rw [if_neg starts] at stuck ⊢
  rw [stuck, List.foldl_nil, holds₃]
  by_cases sameLevel : l = st.level
  · subst sameLevel
    rw [if_neg (not_not.mpr rfl), level.same _ rfl]
    by_cases sameRate : r = st.rate
    · subst sameRate
      rw [if_neg (not_not.mpr rfl), rate.same _ rfl]
      split at stale
      · rename_i silent
        rw [stale.2, stale.1, forall_prop_of_true silent]
        cases st.firing <;> cases st.level <;> cases st.rate <;> cases st.stuck <;> simp [top]
      · rename_i loud
        rw [stale.2, stale.1, holds_eq]
        exact iff_of_true rfl fun silent => absurd silent loud
    · rw [if_pos sameRate]
      cases r with
      | true =>
        have off : st.rate = false := Bool.eq_false_iff.mpr (Ne.symm sameRate)
        rw [rate.starts _ off rfl, forall_prop_of_true rfl]
        cases st.firing <;> cases st.level <;> simp [top]
      | false =>
        have on : st.rate = true := Bool.eq_true_of_not_eq_false (Ne.symm sameRate)
        rw [rate.ends on rfl (some₁ (by simp [conditions, on])), holds₂]
        exact iff_of_true rfl nofun
  · rw [if_pos sameLevel]
    cases l with
    | true =>
      have off : st.level = false := Bool.eq_false_iff.mpr (Ne.symm sameLevel)
      rw [level.starts _ off rfl, forall_prop_of_true rfl]
      cases st.firing <;> simp [top]
    | false =>
      have on : st.level = true := Bool.eq_true_of_not_eq_false (Ne.symm sameLevel)
      have some₂ : (e₂.foldl Effect.shown (e₁.foldl Effect.shown st.holds)).isSome := by
        have before := some₁ (by simp [conditions, on])
        cases wasRate : st.rate <;> cases r
        · rwa [rate.same _ wasRate.symm]
        · rw [rate.starts _ wasRate rfl]
          rfl
        · rw [rate.ends wasRate rfl before, holds₂, on]
          cases st.firing <;> rfl
        · rwa [rate.same _ wasRate.symm]
      rw [level.ends on rfl some₂, holds₃]
      exact iff_of_true rfl nofun

theorem tick_names : Keeps (tick c now) := by
  have stale : Keeps (checkStale c now) := fun st => by
    obtain ⟨b, same, _⟩ := checkStale_spec c now st
    rw [same]
    exact ⟨rfl, rfl, rfl⟩
  have rate : Keeps (checkRate c now) := fun st => by
    obtain ⟨pv, same, _⟩ := checkRate_spec c now st
    rw [same]
    exact ⟨rfl, rfl, rfl⟩
  have level : Keeps (checkLevel c now) := fun st => by
    obtain ⟨pv, same, _⟩ := checkLevel_spec c now st
    rw [same]
    exact ⟨rfl, rfl, rfl⟩
  have stuck : Keeps (checkStuck c now) := fun st => by
    unfold checkStuck
    split <;> exact ⟨rfl, rfl, rfl⟩
  exact stale.andThen ((rate.andThen level).andThen stuck)

end Tick
end SubjectState
end NatsExplorer.Alerts
