import NatsExplorer.Alerts.Interleaving

/-! Whether an alert can be left behind. A `SetRules` or a `Forget` takes the state and
then the alert of a key, and whoever works on a state it found before may raise the alert
again. As long as nobody does, every alert left in the end has its rule and its state. -/
namespace NatsExplorer.Alerts
open Go
namespace Shared
variable {T F : Type} [DecidableEq T] {s s' : Shared T F} {k : Str} {st : Ref} {ruleID : Str}

theorem goto_self {t : T} {phase : Phase F} : (s.goto t phase).phase t = phase := Function.update_self ..

theorem goto_other {t t' : T} {phase : Phase F} (other : t' ≠ t) : (s.goto t phase).phase t' = s.phase t' :=
  Function.update_of_ne other ..

omit [DecidableEq T] in
theorem raised_active (s : Shared T F) (c : Compiled F) (st : Ref) (now : Int) (state : State) (preview : Str)
    (seen : Int) (raises : state ≠ .resolved) : ∃ a, (s.act c st now (.change state preview seen)).active.lookup
      (key c.id (s.heap st).connID (s.heap st).subject) = some a ∧ a.ruleID = c.id := by
  simp only [act, Effect.apply, if_neg raises]
  exact ⟨_, AList.lookup_insert _, rfl⟩

theorem Covered.move {t : T} {phase : Phase F} (moved : s'.phase = Function.update s.phase t phase)
    (states : s.states.lookup k = some st → s'.states.lookup k = some st) (byID : s'.byID = s.byID)
    (deletes : (s.phase t).Deletes k → phase.Deletes k)
    (comes : s.states.lookup k = some st → (s.phase t).Comes s.byID k st →
      phase.Comes s.byID k st ∨ ∃ c, s.byID.lookup ruleID = some c ∧ c.enabled = true)
    (covered : s.Covered k st ruleID) : s'.Covered k st ruleID := by
  rcases covered with ⟨t', deleting⟩ | ⟨there, safe⟩
  · left
    by_cases same : t' = t
    · subst same
      exact ⟨t', by rw [moved, Function.update_self]; exact deletes deleting⟩
    · exact ⟨t', by rw [moved, Function.update_of_ne same]; exact deleting⟩
  · refine Or.inr ⟨states there, ?_⟩
    rw [byID]
    rcases safe with force | ⟨t', coming⟩
    · exact Or.inl force
    · by_cases same : t' = t
      · subst same
        rcases comes there coming with coming | force
        · exact Or.inr ⟨t', by rw [moved, Function.update_self]; exact coming⟩
        · exact Or.inl force
      · exact Or.inr ⟨t', by rw [moved, Function.update_of_ne same]; exact coming⟩

/-- The table has every rule under its id. -/
def Table (byID : Map Str (Compiled F)) : Prop := ∀ id c, byID.lookup id = some c → c.id = id

def JobFine : Job F → Prop
  | .observe rules connID _ _ => (∀ c ∈ rules, Plain c.id) ∧ Plain connID
  | .tick byID _ _ _ => Table byID

/-- What a goroutine holds has its names. -/
def Fine (next : Ref) (heap : Ref → SubjectState F) : Phase F → Prop
  | .between job => JobFine job
  | .found job c st | .holding job c st _ => JobFine job ∧ st < next ∧ c.id = (heap st).ruleID
  | .compiled cs byID _ | .loaded cs byID _ _ => (∀ c ∈ cs, Plain c.id) ∧ Table byID
  | .storing byID _ _ => Table byID
  | _ => True

structure Inv (s : Shared T F) : Prop where
  plain : ∀ st < s.next, Plain (s.heap st).ruleID ∧ Plain (s.heap st).connID
  states : ∀ k st, s.states.lookup k = some st →
    st < s.next ∧ k = key (s.heap st).ruleID (s.heap st).connID (s.heap st).subject
  byID : Table s.byID
  rules : ∀ c ∈ s.rules, Plain c.id
  phases : ∀ t, Fine s.next s.heap (s.phase t)
  active : ∀ k a, s.active.lookup k = some a →
    ∃ st, s.raiser k = some st ∧ st < s.next ∧ a.ruleID = (s.heap st).ruleID ∧ s.Covered k st a.ruleID

omit [DecidableEq T] in
theorem Inv.owned (inv : s.Inv) (returned : ∀ t, s.phase t = .idle) : s.Owned := by
  intro k a found
  obtain ⟨st, raised, _, _, covered⟩ := inv.active k a found
  rcases covered with ⟨t, deleting⟩ | ⟨there, force | ⟨t, coming⟩⟩
  · rw [returned t] at deleting
    cases deleting
  · exact ⟨force, st, raised, there⟩
  · rw [returned t] at coming
    cases coming

omit [DecidableEq T] in
/-- The active alerts may change in what does not matter here. -/
theorem Inv.alerts (inv : s.Inv) {active : Map Str Alert} {mu : Ref → Option T}
    (same : ∀ k a, active.lookup k = some a → ∃ a', s.active.lookup k = some a' ∧ a'.ruleID = a.ruleID) :
    Inv { s with active := active, mu := mu } where
  plain := inv.plain
  states := inv.states
  byID := inv.byID
  rules := inv.rules
  phases := inv.phases
  active k a found := by
    obtain ⟨a', before, id⟩ := same k a found
    exact id ▸ inv.active k a' before

theorem phases_goto {next : Ref} {heap : Ref → SubjectState F} {phases : T → Phase F} {t : T}
    {phase : Phase F} (fine : ∀ t, Fine next heap (phases t)) (here : Fine next heap phase) :
    ∀ t', Fine next heap (Function.update phases t phase t') := by
  intro t'
  by_cases same : t' = t
  · subst same
    rwa [Function.update_self]
  · rw [Function.update_of_ne same]
    exact fine t'

/-- A step that changes nothing but where a goroutine is. -/
theorem Inv.goto (inv : s.Inv) (t : T) {phase : Phase F} (fine : Fine s.next s.heap phase)
    (deletes : ∀ k, (s.phase t).Deletes k → phase.Deletes k)
    (comes : ∀ k st, s.states.lookup k = some st → (s.phase t).Comes s.byID k st →
      phase.Comes s.byID k st ∨ ∃ c, s.byID.lookup (s.heap st).ruleID = some c ∧ c.enabled = true) :
    (s.goto t phase).Inv where
  plain := inv.plain
  states := inv.states
  byID := inv.byID
  rules := inv.rules
  phases := phases_goto inv.phases fine
  active k a found := by
    obtain ⟨st, raised, old, id, covered⟩ := inv.active k a found
    exact ⟨st, raised, old, id, covered.move rfl (fun there => there) rfl (deletes k)
      fun there coming => id.symm ▸ comes k st there coming⟩

/-- A goroutine that deletes nothing and has no state before it goes on. -/
theorem Inv.go (inv : s.Inv) {t : T} {now phase : Phase F} (at_ : s.phase t = now)
    (quiet : (∀ k, ¬ now.Deletes k) ∧ ∀ byID k st, ¬ now.Comes byID k st)
    (fine : Fine s.next s.heap phase) : (s.goto t phase).Inv :=
  inv.goto t fine (fun k deletes => absurd (at_ ▸ deletes) (quiet.1 k))
    fun k st _ comes => absurd (at_ ▸ comes) (quiet.2 _ k st)

section Heap

omit [DecidableEq T] in
theorem fine_congr {next next' : Ref} {heap heap' : Ref → SubjectState F} (later : next ≤ next')
    (same : ∀ st < next, (heap' st).ruleID = (heap st).ruleID) {phase : Phase F}
    (fine : Fine next heap phase) : Fine next' heap' phase := by
  cases phase with
  | found job c st | holding job c st _ =>
    obtain ⟨job, old, id⟩ := fine
    exact ⟨job, old.trans_le later, id.trans (same st old).symm⟩
  | _ => exact fine

omit [DecidableEq T] in
/-- A state changes and keeps its names. -/
theorem Inv.write (inv : s.Inv) (st : Ref) {new : SubjectState F} {mu : Ref → Option T}
    (names : new.ruleID = (s.heap st).ruleID ∧ new.connID = (s.heap st).connID ∧
      new.subject = (s.heap st).subject) :
    Inv { s with heap := Function.update s.heap st new, mu := mu } := by
  have same (st' : Ref) : (Function.update s.heap st new st').ruleID = (s.heap st').ruleID ∧
      (Function.update s.heap st new st').connID = (s.heap st').connID ∧
      (Function.update s.heap st new st').subject = (s.heap st').subject := by
    by_cases here : st' = st
    · subst here
      rw [Function.update_self]
      exact names
    · rw [Function.update_of_ne here]
      exact ⟨rfl, rfl, rfl⟩
  constructor
  · intro st' old
    simp only [(same st').1, (same st').2.1]
    exact inv.plain st' old
  · intro k st' found
    simp only [(same st').1, (same st').2.1, (same st').2.2]
    exact inv.states k st' found
  · exact inv.byID
  · exact inv.rules
  · exact fun t => fine_congr (Nat.le_refl _) (fun st' _ => (same st').1) (inv.phases t)
  · intro k a found
    obtain ⟨st', raised, old, id, covered⟩ := inv.active k a found
    exact ⟨st', raised, old, id.trans (same st').1.symm, covered⟩

omit [DecidableEq T] in
/-- A new state comes under a key that has none. -/
theorem Inv.put (inv : s.Inv) {ruleID connID subject : Str} (rule : Plain ruleID) (conn : Plain connID)
    (absent : s.states.lookup (key ruleID connID subject) = none) :
    (s.put (key ruleID connID subject)
      { ruleID := ruleID, connID := connID, subject := subject }).Inv := by
  have old {st' : Ref} (st : SubjectState F) (older : st' < s.next) :
      Function.update s.heap s.next st st' = s.heap st' := Function.update_of_ne (Nat.ne_of_lt older) ..
  constructor
  · intro st' older
    simp only [Shared.put] at older ⊢
    rcases Nat.lt_succ_iff_lt_or_eq.mp older with older | rfl
    · rw [old _ older]
      exact inv.plain st' older
    · rw [Function.update_self]
      exact ⟨rule, conn⟩
  · intro k st' found
    simp only [Shared.put] at found ⊢
    by_cases here : k = key ruleID connID subject
    · subst here
      rw [AList.lookup_insert, Option.some.injEq] at found
      subst found
      rw [Function.update_self]
      exact ⟨Nat.lt_succ_self _, rfl⟩
    · rw [AList.lookup_insert_ne here] at found
      obtain ⟨older, name⟩ := inv.states k st' found
      rw [old _ older]
      exact ⟨Nat.lt_succ_of_lt older, name⟩
  · exact inv.byID
  · exact inv.rules
  · exact fun t => fine_congr (Nat.le_succ _) (fun st' older => congrArg _ (old _ older)) (inv.phases t)
  · intro k a found
    obtain ⟨st', raised, older, id, covered⟩ := inv.active k a found
    refine ⟨st', raised, Nat.lt_succ_of_lt older, ?_, ?_⟩
    · simp only [Shared.put]
      rw [old _ older]
      exact id
    · refine covered.imp_right fun ⟨there, safe⟩ => ⟨?_, safe⟩
      simp only [Shared.put]
      rw [AList.lookup_insert_ne]
      · exact there
      · rintro rfl
        rw [absent] at there
        cases there

end Heap

section Apply

omit [DecidableEq T] in
/-- An alert that is there after a change was raised by it or was there before. -/
theorem act_active {c : Compiled F} {st : Ref} {now : Int} {effect : Effect} {k : Str} {a : Alert}
    (found : (s.act c st now effect).active.lookup k = some a) :
    (k = key c.id (s.heap st).connID (s.heap st).subject ∧ a.ruleID = c.id ∧
      (s.act c st now effect).raiser k = some st ∧
      ∃ state preview seen, effect = .change state preview seen ∧ state ≠ .resolved) ∨
    ∃ a', s.active.lookup k = some a' ∧ a'.ruleID = a.ruleID ∧
      (s.act c st now effect).raiser k = s.raiser k := by
  have alert := apply_lookup c (s.heap st).connID (s.heap st).subject now
    ((s.engine s.byID).muted c (s.heap st).subject now) s.active effect k
  by_cases here : k = key c.id (s.heap st).connID (s.heap st).subject
  · rw [if_pos here] at alert
    have found := alert.symm.trans found
    subst here
    cases effect with
    | change state preview seen =>
      simp only [Effect.alert] at found
      split at found
      · cases found
      · rename_i real
        rw [Option.some.injEq] at found
        exact Or.inl ⟨rfl, found ▸ rfl, Function.update_self .., state, preview, seen, rfl, real⟩
    | left state preview =>
      obtain ⟨a', before, rfl⟩ := Option.map_eq_some_iff.mp found
      exact Or.inr ⟨a', before, rfl, rfl⟩
    | update state preview =>
      obtain ⟨a', before, rfl⟩ := Option.map_eq_some_iff.mp found
      exact Or.inr ⟨a', before, by split <;> rfl, rfl⟩
  · rw [if_neg here] at alert
    refine Or.inr ⟨a, alert.symm.trans found, rfl, ?_⟩
    cases effect with
    | change => exact Function.update_of_ne here ..
    | left | update => rfl

omit [DecidableEq T] in
theorem Inv.act (inv : s.Inv) {c : Compiled F} {st : Ref} (old : st < s.next)
    (id : c.id = (s.heap st).ruleID) (now : Int) {effect : Effect}
    (current : ∀ state preview seen, effect = .change state preview seen → state ≠ .resolved →
      s.Covered (key c.id (s.heap st).connID (s.heap st).subject) st c.id) :
    (s.act c st now effect).Inv where
  plain := inv.plain
  states := inv.states
  byID := inv.byID
  rules := inv.rules
  phases := inv.phases
  active k a found := by
    rcases act_active found with ⟨rfl, name, raised, state, preview, seen, raises, real⟩ |
        ⟨a', before, name, raised⟩
    · exact ⟨st, raised, old, name.trans id, name.symm ▸ current state preview seen raises real⟩
    · rw [← name, raised]
      exact inv.active k a' before

end Apply

theorem in_force [DecidableEq F] {old byID : Map Str (Compiled F)} {now : Int} {st : SubjectState F}
    (kept : (Sweep.setRules old byID now).takes st = false) :
    ∃ c, byID.lookup st.ruleID = some c ∧ c.enabled = true := by
  simp only [Sweep.takes, Engine.outdated] at kept
  split at kept
  · rename_i n o found _
    refine ⟨n, found, ?_⟩
    simp only [Bool.or_eq_false_iff, Bool.not_eq_false'] at kept
    exact kept.1
  · cases kept

section Step
variable [Tables] [Filter.Compiler] [Numbers F] [Payloads F] [DecidableEq F] {act : Act T F}

theorem step_inv (inv : s.Inv) (step : Step s act s') (current : s.Current act) : s'.Inv := by
  have quiet {phase : Phase F} (deletes : ∀ k, ¬ phase.Deletes k)
      (comes : ∀ byID k st, ¬ phase.Comes byID k st) :
      (∀ k, ¬ phase.Deletes k) ∧ ∀ byID k st, ¬ phase.Comes byID k st := ⟨deletes, comes⟩
  cases step with
  | @observe t connID r now at_ conn =>
    exact inv.go at_ (quiet (fun _ h => h) fun _ _ _ h => h) ⟨inv.rules, conn⟩
  | @skip t c rules connID r now at_ _ =>
    obtain ⟨plain, conn⟩ : Fine s.next s.heap _ := at_ ▸ inv.phases t
    exact inv.go at_ (quiet (fun _ h => h) fun _ _ _ h => h)
      ⟨fun c member => plain c (List.mem_cons_of_mem _ member), conn⟩
  | @load t c rules connID r now st at_ _ _ found =>
    obtain ⟨plain, conn⟩ : Fine s.next s.heap _ := at_ ▸ inv.phases t
    obtain ⟨old, name⟩ := inv.states _ st found
    obtain ⟨id, _, _⟩ := key_injective (plain c List.mem_cons_self) (inv.plain st old).1 conn
      (inv.plain st old).2 name
    exact inv.go at_ (quiet (fun _ h => h) fun _ _ _ h => h)
      ⟨⟨fun c member => plain c (List.mem_cons_of_mem _ member), conn⟩, old, id⟩
  | @create t c rules connID r now at_ _ _ absent =>
    obtain ⟨plain, conn⟩ : Fine s.next s.heap _ := at_ ▸ inv.phases t
    have put := inv.put (plain c List.mem_cons_self) conn absent
    refine put.go at_ (quiet (fun _ h => h) fun _ _ _ h => h)
      ⟨⟨fun c member => plain c (List.mem_cons_of_mem _ member), conn⟩, Nat.lt_succ_self _, ?_⟩
    simp only [Shared.put, Function.update_self]
  | @observed t connID r now at_ =>
    exact inv.go at_ (quiet (fun _ h => h) fun _ _ _ h => h) trivial
  | @tick t now at_ =>
    exact inv.go at_ (quiet (fun _ h => h) fun _ _ _ h => h) inv.byID
  | @pass t byID todo seen now k st at_ _ _ _ =>
    have table : Fine s.next s.heap _ := at_ ▸ inv.phases t
    exact inv.go at_ (quiet (fun _ h => h) fun _ _ _ h => h) table
  | @visit t byID todo seen now k st c at_ _ found rule _ =>
    have table : Fine s.next s.heap _ := at_ ▸ inv.phases t
    exact inv.go at_ (quiet (fun _ h => h) fun _ _ _ h => h)
      ⟨table, (inv.states k st found).1, table _ c rule⟩
  | @ticked t byID todo seen now at_ _ =>
    exact inv.go at_ (quiet (fun _ h => h) fun _ _ _ h => h) trivial
  | @enter t job c st at_ _ =>
    obtain ⟨fine, old, id⟩ : Fine s.next s.heap _ := at_ ▸ inv.phases t
    have names : (job.turn c (s.heap st)).1.ruleID = (s.heap st).ruleID ∧
        (job.turn c (s.heap st)).1.connID = (s.heap st).connID ∧
        (job.turn c (s.heap st)).1.subject = (s.heap st).subject := by
      cases job with
      | observe _ _ r now => exact SubjectState.observe_names c r now (s.heap st)
      | tick _ _ _ now => exact SubjectState.tick_names c now (s.heap st)
    refine (inv.write st names).go at_ (quiet (fun _ h => h) fun _ _ _ h => h) ⟨fine, old, ?_⟩
    simp only [Function.update_self]
    exact id.trans names.1.symm
  | @apply t job c st effect effects at_ =>
    obtain ⟨fine, old, id⟩ : Fine s.next s.heap _ := at_ ▸ inv.phases t
    refine (inv.act old id job.now fun state preview seen raises real => ?_).go at_
      (quiet (fun _ h => h) fun _ _ _ h => h) ⟨fine, old, id⟩
    exact current job c st state preview seen effects (raises ▸ at_) real
  | @leave t job c st at_ =>
    obtain ⟨fine, _, _⟩ : Fine s.next s.heap _ := at_ ▸ inv.phases t
    exact (inv.alerts fun k a found => ⟨a, found, rfl⟩).go at_ (quiet (fun _ h => h) fun _ _ _ h => h) fine
  | @setRules t rules now cs byID at_ plain compiled =>
    obtain ⟨ids, table⟩ := Engine.compile_spec compiled fun id c none => by cases none
    refine inv.go at_ (quiet (fun _ h => h) fun _ _ _ h => h) ⟨fun c member => ?_, table⟩
    obtain ⟨rule, listed, same⟩ := ids c member
    exact same ▸ plain rule listed
  | @loadOld t cs byID now at_ =>
    have fine : Fine s.next s.heap _ := at_ ▸ inv.phases t
    exact inv.go at_ (quiet (fun _ h => h) fun _ _ _ h => h) fine
  | @storeRules t cs byID old now at_ =>
    obtain ⟨plain, table⟩ : Fine s.next s.heap _ := at_ ▸ inv.phases t
    have stored : Inv { s with rules := cs } := { inv with rules := plain }
    exact stored.go at_ (quiet (fun _ h => h) fun _ _ _ h => h) table
  | @storeByID t byID old now at_ =>
    have table : Fine s.next s.heap _ := at_ ▸ inv.phases t
    refine ⟨inv.plain, inv.states, table, inv.rules, phases_goto inv.phases trivial, fun k a found => ?_⟩
    obtain ⟨st, raised, older, id, covered⟩ := inv.active k a found
    refine ⟨st, raised, older, id, ?_⟩
    rcases covered with ⟨t', deleting⟩ | ⟨there, _⟩
    · have other : t' ≠ t := by
        rintro rfl
        rw [at_] at deleting
        exact deleting
      exact Or.inl ⟨t', by simp only [Shared.goto, Function.update_of_ne other]; exact deleting⟩
    · exact Or.inr ⟨there, Or.inr ⟨t, by simp only [Shared.goto, Function.update_self]; rfl⟩⟩
  | @sweep t byID old now at_ =>
    refine inv.goto t trivial (fun k deletes => ?_) fun k st there comes => ?_ <;> rw [at_] at *
    · cases deletes
    · exact Or.inl ⟨comes, there, List.not_mem_nil⟩
  | @forget t connID at_ =>
    exact inv.go at_ (quiet (fun _ h => h) fun _ _ _ h => h) trivial
  | @keep t sweep todo seen k st at_ _ found kept =>
    refine inv.goto t trivial (fun k' deletes => ?_) fun k' st' there comes => ?_ <;> rw [at_] at *
    · cases deletes
    · cases sweep with
      | forget connID => cases comes
      | setRules old byID now =>
        obtain ⟨rfl, listed, unseen⟩ := comes
        by_cases same : k' = k
        · subst same
          rw [found, Option.some.injEq] at there
          subst there
          exact Or.inr (in_force kept)
        · exact Or.inl ⟨rfl, listed, List.not_mem_cons_of_ne_of_not_mem same unseen⟩
  | @condemn t sweep todo seen k st at_ _ found takes =>
    refine inv.goto t trivial (fun k' deletes => ?_) fun k' st' there comes => Or.inl ?_ <;> rw [at_] at *
    · cases deletes
    · cases sweep with
      | forget connID => cases comes
      | setRules old byID now =>
        obtain ⟨rfl, listed, unseen⟩ := comes
        by_cases same : k' = k
        · exact ⟨rfl, Or.inl same.symm⟩
        · exact ⟨rfl, Or.inr ⟨listed, List.not_mem_cons_of_ne_of_not_mem same unseen⟩⟩
  | @delete t sweep todo seen k at_ =>
    have left {k' : Str} (other : k' ≠ k) : (s.states.erase k).lookup k' = s.states.lookup k' :=
      AList.lookup_erase_ne other
    refine ⟨inv.plain, fun k' st found => ?_, inv.byID, inv.rules, phases_goto inv.phases trivial,
      fun k' a found => ?_⟩
    · by_cases same : k' = k
      · subst same
        exact absurd found (by simp only [Shared.goto, AList.lookup_erase]; nofun)
      · exact inv.states k' st (left same ▸ found)
    · obtain ⟨st, raised, old, id, covered⟩ := inv.active k' a found
      refine ⟨st, raised, old, id, ?_⟩
      by_cases same : k' = k
      · exact Or.inl ⟨t, by simp only [Shared.goto, Function.update_self]; exact same.symm⟩
      · refine Covered.move (s := s) (t := t) rfl (fun there => (left same).trans there) rfl (fun deletes => ?_)
          (fun _ comes => Or.inl ?_) covered <;> rw [at_] at *
        · cases deletes
        · cases sweep with
          | forget connID => cases comes
          | setRules old byID now => exact ⟨comes.1, comes.2.resolve_left (Ne.symm same)⟩
  | @drop t sweep todo seen k at_ =>
    refine ⟨inv.plain, inv.states, inv.byID, inv.rules, phases_goto inv.phases trivial,
      fun k' a found => ?_⟩
    have other : k' ≠ k := by
      rintro rfl
      simp only [Shared.goto, AList.lookup_erase] at found
      cases found
    obtain ⟨st, raised, old, id, covered⟩ := inv.active k' a (AList.lookup_erase_ne other ▸ found)
    refine ⟨st, raised, old, id, Covered.move (s := s) (t := t) rfl (fun there => there) rfl (fun deletes => ?_)
      (fun _ comes => Or.inl ?_) covered⟩ <;> rw [at_] at *
    · exact absurd deletes.symm other
    · cases sweep with
      | forget connID => cases comes
      | setRules old byID now => exact comes
  | @swept t old byID now todo seen at_ ranged =>
    refine inv.goto t trivial (fun k deletes => ?_) fun k st there comes => ?_ <;> rw [at_] at *
    · cases deletes
    · exact absurd (ranged k st comes.2.1 there) comes.2.2
  | @forgot t connID todo seen at_ _ =>
    exact inv.go at_ (quiet (fun _ h => h) fun _ _ _ h => h) trivial
  | @loadTable t now at_ =>
    exact inv.go at_ (quiet (fun _ h => h) fun _ _ _ h => h) trivial
  | @refresh t byID now rt at_ =>
    have same := (Engine.refreshMuted_same (e := s.engine byID) rt now).2.2.2
    refine (inv.alerts fun k a found => ?_).go at_ (quiet (fun _ h => h) fun _ _ _ h => h) trivial
    have before := same k
    rw [found] at before
    obtain ⟨a', found', names⟩ := Option.map_eq_some_iff.mp before.symm
    exact ⟨a', found', congrArg Prod.fst names⟩

omit [DecidableEq T] [Tables] [Filter.Compiler] [Numbers F] [Payloads F] [DecidableEq F] in
theorem new_inv : (new : Shared T F).Inv where
  plain st old := absurd old (Nat.not_lt_zero st)
  states k st none := by cases none
  byID id c none := by cases none
  rules c none := absurd none List.not_mem_nil
  phases t := trivial
  active k a none := by cases none

/-- Once all calls have returned every active alert has its rule and its state, if none
was raised behind a call that took them. -/
theorem owned_returned {acts : List (Act T F)}
    (run : Transition.Reaches (fun s act s' => Step s act s' ∧ s.Current act) new acts s)
    (returned : ∀ t, s.phase t = .idle) : s.Owned := by
  have inv : s.Inv := run.invariant (P := Inv) (fun inv ⟨step, current⟩ => step_inv inv step current) new_inv
  exact inv.owned returned

/-- What a `Tick` or a `SetRules` does last, over the alerts in their order. -/
theorem refreshed {t : T} {byID : Map Str (Compiled F)} {now : Int} (at_ : s.phase t = .refreshing byID now) :
    Step s (.refresh t) ({ s with active := ((s.engine byID).refreshMuted .plain now).active }.goto t .idle) :=
  .refresh at_

end Step

section Sample
open Engine

/-- The steps of an engine in which every expression is true. -/
def SampleStep : Shared Bool Int → Act Bool Int → Shared Bool Int → Prop :=
  let _ := asciiTables
  let _ := yes
  let _ := sampleNumbers
  let _ := samplePayloads
  Step

def compiled : Compiled Int where
  toRule := @Rule.completed _ asciiTables always
  prog := some ⟨fun _ => true, fun _ => true⟩

def table : Map Str (Compiled Int) := (∅ : Map Str (Compiled Int)).insert ['r'] compiled

theorem compile_always : @Engine.compile Int asciiTables yes samplePayloads [always] ∅ = .ok ([compiled], table) := by
  rfl

/-- A call of `SetRules` that runs alone on an engine without states. -/
theorem installed : ∃ acts s, Transition.Reaches (fun s act s' => SampleStep s act s' ∧ s.Current act) new acts s ∧
    s.byID = table ∧ s.rules = [compiled] ∧ s.states = ∅ ∧ s.active = ∅ ∧ s.next = 0 ∧ s.mu = (fun _ => none) ∧
    ∀ t, s.phase t = .idle := by
  let _ := asciiTables
  let _ := yes
  let _ := sampleNumbers
  let _ := samplePayloads
  have still : Transition.Reaches (fun s act s' => SampleStep s act s' ∧ s.Current act)
      (new : Shared Bool Int) [] new :=
    .refl _
  have called : Step (new : Shared Bool Int) (.setRules false [always] 0) _ :=
    .setRules rfl (by decide) compile_always
  have run := still
    |>.next ⟨called, trivial⟩
    |>.next ⟨.loadOld (t := false) rfl, trivial⟩
    |>.next ⟨.storeRules (t := false) rfl, trivial⟩
    |>.next ⟨.storeByID (t := false) rfl, trivial⟩
    |>.next ⟨.sweep (t := false) rfl, trivial⟩
    |>.next ⟨.swept (t := false) rfl fun k st none => (by cases none), trivial⟩
    |>.next ⟨.loadTable (t := false) rfl, trivial⟩
    |>.next ⟨refreshed (t := false) rfl, trivial⟩
  exact ⟨_, _, run, rfl, rfl, rfl, rfl, rfl, rfl, fun t => by cases t <;> rfl⟩

/-- An `Observe` that has found the state of its rule, and not locked it yet. -/
theorem observing : ∃ acts s, Transition.Reaches (fun s act s' => SampleStep s act s' ∧ s.Current act) new acts s ∧
    s.byID = table ∧ s.states = (∅ : Map Str Ref).insert (key ['r'] ['c'] ['s']) 0 ∧ s.active = ∅ ∧
    s.heap 0 = { ruleID := ['r'], connID := ['c'], subject := ['s'] } ∧ s.mu = (fun _ => none) ∧
    s.phase false = .idle ∧ s.phase true = .found (.observe [] ['c'] beat 1000) compiled 0 := by
  let _ := asciiTables
  let _ := yes
  let _ := sampleNumbers
  let _ := samplePayloads
  obtain ⟨acts, s, before, byID, rules, states, active, next, mu, idle⟩ := installed
  have called : Step s (.observe true ['c'] beat 1000) _ := .observe (idle true) (by decide)
  have at_ : (s.goto true (.between (.observe s.rules ['c'] beat 1000))).phase true =
      .between (.observe [compiled] ['c'] beat (1000 : Nat)) := by
    rw [goto_self, rules]
    rfl
  have none_ : (s.goto true (.between (.observe s.rules ['c'] beat 1000))).states.lookup (key ['r'] ['c'] ['s']) =
      none := by
    simp only [goto, states]
    rfl
  have run := (before.next ⟨called, trivial⟩).next ⟨.create at_ rfl rfl none_, trivial⟩
  refine ⟨_, _, run, byID, ?_, active, ?_, mu, ?_, ?_⟩
  · simp only [goto, put, states, next]
    rfl
  · simp only [goto, put, next]
    exact Function.update_self ..
  · rw [goto_other (by decide), put, goto_other (by decide)]
    exact idle false
  · rw [goto_self]
    simp only [goto, next]
    rfl

/-- It goes on alone and raises its alert; if `known`, the state and the rule are still there. -/
theorem raises {s : Shared Bool Int} (known : Prop)
    (heap : s.heap 0 = { ruleID := ['r'], connID := ['c'], subject := ['s'] })
    (free : s.mu 0 = none) (others : s.phase false = .idle)
    (found : s.phase true = .found (.observe [] ['c'] beat (1000 : Nat)) compiled 0)
    (there : known → s.states.lookup (key ['r'] ['c'] ['s']) = some 0 ∧ s.byID.lookup ['r'] = some compiled) :
    ∃ acts s', Transition.Reaches (fun s act s' => SampleStep s act s' ∧ (known → s.Current act)) s acts s' ∧
      s'.byID = s.byID ∧ s'.states = s.states ∧
      (∃ a, s'.active.lookup (key ['r'] ['c'] ['s']) = some a ∧ a.ruleID = ['r']) ∧ ∀ t, s'.phase t = .idle := by
  let _ := asciiTables
  let _ := yes
  let _ := sampleNumbers
  let _ := samplePayloads
  have turned : ∃ st, (Job.observe [] ['c'] beat (1000 : Nat)).turn compiled (s.heap 0) =
      (st, [.change .firing "1".toList 1000]) ∧ st.connID = ['c'] ∧ st.subject = ['s'] := by
    rw [heap]
    exact ⟨_, rfl, rfl, rfl⟩
  obtain ⟨st, turned, connID, subject⟩ := turned
  let held : Shared Bool Int :=
    ({ s with heap := Function.update s.heap 0 st, mu := Function.update s.mu 0 (some true) } : Shared Bool Int).goto true
      (.holding (.observe [] ['c'] beat (1000 : Nat)) compiled 0 [.change .firing "1".toList 1000])
  have named : key compiled.id (held.heap 0).connID (held.heap 0).subject = key ['r'] ['c'] ['s'] := by
    simp only [held, goto, Function.update_self, connID, subject]
    rfl
  have entered : Step s (.enter true) held := by
    have step : Step s (.enter true) _ := .enter found free
    rwa [turned] at step
  have covered (sure : known) : held.Covered (key ['r'] ['c'] ['s']) 0 compiled.id :=
    Or.inr ⟨(there sure).1, Or.inl ⟨compiled, (there sure).2, rfl⟩⟩
  have start : Transition.Reaches (fun s act s' => SampleStep s act s' ∧ (known → s.Current act)) s [] s := .refl _
  have applied := (start.next ⟨entered, fun _ => trivial⟩).next ⟨.apply goto_self, fun sure => ?_⟩
  · have left := (applied.next ⟨.leave goto_self, fun _ => trivial⟩).next ⟨.observed goto_self, fun _ => trivial⟩
    refine ⟨_, _, left, rfl, rfl, ?_, fun t => ?_⟩
    · have alert := raised_active held compiled 0 (1000 : Nat) .firing "1".toList 1000 (by decide)
      rw [named] at alert
      exact alert
    · cases t with
      | false => exact others
      | true => exact goto_self
  · intro job c st' state preview seen effects at_ _
    obtain ⟨rfl, rfl, rfl, -⟩ := Phase.holding.inj (goto_self.symm.trans at_)
    rw [named]
    exact covered sure

/-- A call of `SetRules` that takes the rule and its state. -/
theorem emptied {s : Shared Bool Int} {phase : Phase Int}
    (states : s.states = (∅ : Map Str Ref).insert (key ['r'] ['c'] ['s']) 0) (idle : s.phase false = .idle)
    (other : s.phase true = phase) : ∃ acts s', Transition.Reaches SampleStep s acts s' ∧
      s'.byID = ∅ ∧ s'.heap = s.heap ∧ s'.mu = s.mu ∧ s'.phase false = .idle ∧ s'.phase true = phase := by
  let _ := asciiTables
  let _ := yes
  let _ := sampleNumbers
  let _ := samplePayloads
  have start : Transition.Reaches SampleStep s [] s := .refl _
  have called : Step s (.setRules false [] 2000) _ := .setRules idle (List.forall_mem_nil _) rfl
  have there : s.states.lookup (key ['r'] ['c'] ['s']) = some 0 := by
    rw [states]
    exact AList.lookup_insert _
  have run := start
    |>.next called
    |>.next (.loadOld (t := false) goto_self)
    |>.next (.storeRules (t := false) goto_self)
    |>.next (.storeByID (t := false) goto_self)
    |>.next (.sweep (t := false) goto_self)
    |>.next (.condemn (t := false) (k := key ['r'] ['c'] ['s']) goto_self (by nofun) there rfl)
    |>.next (.delete (t := false) goto_self)
    |>.next (.drop (t := false) goto_self)
    |>.next (.swept (t := false) goto_self fun k st found _ => ?_)
    |>.next (.loadTable (t := false) goto_self)
    |>.next (refreshed (t := false) goto_self)
  · exact ⟨_, _, run, rfl, rfl, rfl, goto_self, other⟩
  · by_cases same : k = key ['r'] ['c'] ['s']
    · subst same
      exact List.mem_cons_self
    · have gone : s.states.lookup k = none := by
        rw [states, AList.lookup_insert_ne same]
        rfl
      cases gone.symm.trans found

/-- The call has its alert in order when it returns. -/
theorem owned_observed : ∃ s : Shared Bool Int, (∃ a, s.active.lookup (key ['r'] ['c'] ['s']) = some a) ∧ s.Owned := by
  let _ := asciiTables
  let _ := yes
  let _ := sampleNumbers
  let _ := samplePayloads
  obtain ⟨acts, s, before, byID, states, active, heap, mu, idle, found⟩ := observing
  obtain ⟨more, s', after, _, _, ⟨a, alert, _⟩, returned⟩ := raises True heap (by rw [mu]) idle found fun _ => by
    rw [byID, states]
    exact ⟨rfl, rfl⟩
  have run := before.append (after.mono fun ⟨step, current⟩ => ⟨step, current trivial⟩)
  exact ⟨s', ⟨a, alert⟩, owned_returned run returned⟩

/-- `SetRules` takes the rule while an `Observe` holds a state of it, and the `Observe`
raises the alert again. -/
theorem alert_left_behind : ¬ ∀ (_ : Tables) (_ : Filter.Compiler) (_ : Numbers Int) (_ : Payloads Int)
    (acts : List (Act Bool Int)) (s : Shared Bool Int), Transition.Reaches Step new acts s →
    (∀ t, s.phase t = .idle) → s.Owned := by
  intro claim
  let _ := asciiTables
  let _ := yes
  let _ := sampleNumbers
  let _ := samplePayloads
  obtain ⟨acts, s, before, byID, states, active, heap, mu, idle, found⟩ := observing
  obtain ⟨more, s', removed, gone, heap', mu', idle', found'⟩ := emptied states idle found
  obtain ⟨last, left, after, same, _, ⟨a, alert, id⟩, returned⟩ :=
    raises False (heap' ▸ heap) (by rw [mu', mu]) idle' found' False.elim
  have run := ((before.mono And.left).append removed).append (after.mono And.left)
  obtain ⟨⟨c, there, _⟩, _⟩ := claim asciiTables yes sampleNumbers samplePayloads _ left run returned _ a alert
  rw [id, same, gone] at there
  cases there

end Sample
end Shared
end NatsExplorer.Alerts
