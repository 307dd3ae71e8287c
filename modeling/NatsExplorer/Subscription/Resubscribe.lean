import NatsExplorer.Go.Runtime
import NatsExplorer.Library.Transition
import Mathlib.Algebra.BigOperators.Group.Multiset.Basic
import Mathlib.Data.Multiset.AddSub
import Mathlib.Algebra.Order.Sub.Basic
import Mathlib.Data.Multiset.OrderedMonoid
import Mathlib.Tactic.Abel

/-! The NATS subscriptions of a manager (`internal/subscription/manager.go`,
`resubscribe.go`), under any number of calls of `Start`, `SetSubjects` and `Stop`. A step is
what a call does under one lock, or one `Subscribe` or `Unsubscribe` outside of it. -/
namespace NatsExplorer.Subscription.Subscribing
open Go

structure Sub where
  id : Nat
  pattern : Str
  deriving DecidableEq

/-- What a call does next. -/
inductive Call where
  | stop
  | start (subjects : List Str)
  | begin (subjects : List Str)
  | subscribe (todo : List Str)
  | append (sub : Sub) (todo : List Str)
  | failed
  | setSubjects (subjects : List Str)
  | unsubscribe (old : List Sub) (subjects : List Str)
  | resubscribe (subs : List Sub) (todo : List Str)
  | backOut (subs : List Sub)

/-- `active` is what NATS still delivers to the manager, `made` counts the subscriptions. -/
structure Manager where
  running : Bool
  patterns : List Str
  subs : List Sub
  active : Multiset Sub
  made : Nat
  calls : Multiset Call

inductive Act where
  | callStart (subjects : List Str)
  | callSetSubjects (subjects : List Str)
  | callStop
  | stop
  | begin
  | subscribe
  | refuse
  | append
  | started
  | take
  | unsubscribe
  | released
  | resubscribe
  | refuseAgain
  | backOut
  | backedOut
  | store
  deriving DecidableEq

namespace Manager

def newManager : Manager where
  running := false
  patterns := []
  subs := []
  active := 0
  made := 0
  calls := 0

/-- `Stop` under the lock. -/
def stop (m : Manager) : Manager :=
  if m.running then { m with running := false, active := m.active - m.subs, subs := [] } else m

inductive Step : Manager → Act → Manager → Prop where
  | callStart {m} (subjects) : Step m (.callStart subjects) { m with calls := .start subjects ::ₘ m.calls }
  | callSetSubjects {m} (subjects) :
      Step m (.callSetSubjects subjects) { m with calls := .setSubjects subjects ::ₘ m.calls }
  | callStop {m} : Step m .callStop { m with calls := .stop ::ₘ m.calls }
  | stop {m rest} : m.calls = .stop ::ₘ rest → Step m .stop { m.stop with calls := rest }
  | stopFirst {m rest subjects} : m.calls = .start subjects ::ₘ rest →
      Step m .stop { m.stop with calls := .begin subjects ::ₘ rest }
  | stopFailed {m rest} : m.calls = .failed ::ₘ rest → Step m .stop { m.stop with calls := rest }
  | begin {m rest subjects} : m.calls = .begin subjects ::ₘ rest →
      Step m .begin { m with running := true, patterns := subjects, calls := .subscribe subjects ::ₘ rest }
  | subscribe {m rest p todo} : m.calls = .subscribe (p :: todo) ::ₘ rest → Step m .subscribe { m with
      active := ⟨m.made, p⟩ ::ₘ m.active
      made := m.made + 1
      calls := .append ⟨m.made, p⟩ todo ::ₘ rest }
  | refuse {m rest p todo} : m.calls = .subscribe (p :: todo) ::ₘ rest →
      Step m .refuse { m with calls := .failed ::ₘ rest }
  | append {m rest sub todo} : m.calls = .append sub todo ::ₘ rest →
      Step m .append { m with subs := m.subs ++ [sub], calls := .subscribe todo ::ₘ rest }
  | started {m rest} : m.calls = .subscribe [] ::ₘ rest → Step m .started { m with calls := rest }
  | take {m rest subjects} : m.calls = .setSubjects subjects ::ₘ rest → m.running = true →
      Step m .take { m with subs := [], patterns := subjects, calls := .unsubscribe m.subs subjects ::ₘ rest }
  | restart {m rest subjects} : m.calls = .setSubjects subjects ::ₘ rest → m.running = false →
      Step m .take { m with calls := .start subjects ::ₘ rest }
  | unsubscribe {m rest sub old subjects} : m.calls = .unsubscribe (sub :: old) subjects ::ₘ rest →
      Step m .unsubscribe { m with active := m.active.erase sub, calls := .unsubscribe old subjects ::ₘ rest }
  | released {m rest subjects} : m.calls = .unsubscribe [] subjects ::ₘ rest →
      Step m .released { m with calls := .resubscribe [] subjects ::ₘ rest }
  | resubscribe {m rest subs p todo} : m.calls = .resubscribe subs (p :: todo) ::ₘ rest → Step m .resubscribe { m with
      active := ⟨m.made, p⟩ ::ₘ m.active
      made := m.made + 1
      calls := .resubscribe (subs ++ [⟨m.made, p⟩]) todo ::ₘ rest }
  | refuseAgain {m rest subs p todo} : m.calls = .resubscribe subs (p :: todo) ::ₘ rest →
      Step m .refuseAgain { m with calls := .backOut subs ::ₘ rest }
  | backOut {m rest sub subs} : m.calls = .backOut (sub :: subs) ::ₘ rest →
      Step m .backOut { m with active := m.active.erase sub, calls := .backOut subs ::ₘ rest }
  | backedOut {m rest} : m.calls = .backOut [] ::ₘ rest → Step m .backedOut { m with calls := rest }
  | store {m rest subs} : m.calls = .resubscribe subs [] ::ₘ rest →
      Step m .store { m with subs := subs, calls := rest }

/-- The manager is subscribed to its patterns, each once, while it runs. -/
def Subscribed (m : Manager) : Prop := m.running = true → m.subs.map Sub.pattern = m.patterns

/-- Nothing is subscribed but what the manager knows of, and nothing when it does not run
or is stopped now. -/
structure Owned (m : Manager) : Prop where
  active : m.active = m.subs
  stopped : m.running = false → m.active = 0
  stop : m.stop.active = 0

end Manager

/-- A change under way, which has set the patterns and not all of the subscriptions. -/
def Call.busy : Call → Bool
  | .subscribe _ => true
  | .append _ _ => true
  | .unsubscribe _ _ => true
  | .resubscribe _ _ => true
  | _ => false

/-- The subscriptions a call holds that are not in `m.subs`. -/
def Call.held : Call → Multiset Sub
  | .append sub _ => {sub}
  | .unsubscribe old _ => old
  | .resubscribe subs _ => subs
  | .backOut subs => subs
  | _ => 0

namespace Manager

/-- No change and no stop gets in between another change, and no two starts. -/
def Alone (m : Manager) : Act → Prop
  | .stop => m.running = true → ∀ c ∈ m.calls, c.busy = false
  | .take => m.running = true → ∀ c ∈ m.calls, c.busy = false
  | .begin => m.running = false
  | _ => True

end Manager

/-- What a change has still to subscribe to makes up for what is missing. -/
def Call.Fits (m : Manager) : Call → Prop
  | .subscribe todo => m.subs.map Sub.pattern ++ todo = m.patterns
  | .append sub todo => m.subs.map Sub.pattern ++ sub.pattern :: todo = m.patterns
  | .unsubscribe _ subjects => m.subs = [] ∧ subjects = m.patterns
  | .resubscribe subs todo => m.subs = [] ∧ subs.map Sub.pattern ++ todo = m.patterns
  | _ => True

namespace Manager
variable {m m' : Manager} {c c' : Call} {rest : Multiset Call}

/-- How many changes are under way. -/
def changes (calls : Multiset Call) : Nat := calls.countP fun c => c.busy = true

structure Inv (m : Manager) : Prop where
  active : m.active = m.subs + (m.calls.map Call.held).sum
  stopped : m.running = false → m.subs = []
  one : changes m.calls ≤ 1
  fits : ∀ c ∈ m.calls, c.busy = true → m.running = true ∧ c.Fits m

theorem held_cons (c : Call) (rest : Multiset Call) :
    ((c ::ₘ rest).map Call.held).sum = c.held + (rest.map Call.held).sum := by
  rw [Multiset.map_cons, Multiset.sum_cons]

theorem changes_cons (c : Call) (rest : Multiset Call) :
    changes (c ::ₘ rest) = changes rest + if c.busy = true then 1 else 0 :=
  Multiset.countP_cons ..

theorem changes_idle : changes rest = 0 ↔ ∀ c ∈ rest, c.busy = false := by
  simp only [changes, Multiset.countP_eq_zero, Bool.not_eq_true]

/-- Beside a change under way there is none. -/
theorem Inv.alone (inv : m.Inv) (here : m.calls = c ::ₘ rest) (busy : c.busy = true) :
    ∀ c' ∈ rest, c'.busy = false := by
  have one := inv.one
  rw [here, changes_cons, if_pos busy] at one
  exact changes_idle.mp (by omega)

/-- The one change there is goes on. -/
theorem Inv.change (idle : ∀ c ∈ rest, c.busy = false) (calls : m.calls = c ::ₘ rest)
    (active : m.active = m.subs + (m.calls.map Call.held).sum) (running : m.running = true) (fits : c.Fits m) :
    m.Inv where
  active := active
  stopped at_ := Bool.noConfusion (at_.symm.trans running)
  one := by
    rw [calls, changes_cons, changes_idle.mpr idle]
    split <;> omega
  fits c' member busy := by
    rw [calls] at member
    rcases Multiset.mem_cons.mp member with rfl | later
    · exact ⟨running, fits⟩
    · exact Bool.noConfusion ((idle c' later).symm.trans busy)

/-- No change is under way. -/
theorem Inv.idle (idle : ∀ c ∈ m.calls, c.busy = false) (active : m.active = m.subs + (m.calls.map Call.held).sum)
    (stopped : m.running = false → m.subs = []) : m.Inv where
  active := active
  stopped := stopped
  one := (changes_idle.mpr idle).trans_le (Nat.zero_le _)
  fits c member busy := Bool.noConfusion ((idle c member).symm.trans busy)

/-- Calls that are no change come and go beside the one there is. -/
theorem Inv.beside (inv : m.Inv) {active : Multiset Sub} {calls : Multiset Call}
    (held : active = m.subs + (calls.map Call.held).sum) (fewer : changes calls ≤ changes m.calls)
    (known : ∀ c ∈ calls, c.busy = true → c ∈ m.calls) : { m with active := active, calls := calls }.Inv where
  active := held
  stopped := inv.stopped
  one := fewer.trans inv.one
  fits c member busy := inv.fits c (known c member busy) busy

theorem Inv.call (inv : m.Inv) (idle : c.busy = false) (none : c.held = 0) : { m with calls := c ::ₘ m.calls }.Inv := by
  refine inv.beside ?_ ?_ fun c' member busy => ?_
  · rw [held_cons, none, zero_add]
    exact inv.active
  · rw [changes_cons, if_neg (by rw [idle]; exact Bool.false_ne_true), Nat.add_zero]
  · rcases Multiset.mem_cons.mp member with rfl | there
    · exact Bool.noConfusion (idle.symm.trans busy)
    · exact there

theorem Inv.active_cons (inv : m.Inv) (here : m.calls = c ::ₘ rest) :
    m.active = m.subs + (c.held + (rest.map Call.held).sum) := by
  rw [inv.active, here, held_cons]

theorem Inv.returned (inv : m.Inv) (here : m.calls = c ::ₘ rest) (none : c.held = 0) : { m with calls := rest }.Inv := by
  refine inv.beside ?_ ?_ fun c' member _ => ?_
  · rw [inv.active_cons here, none, zero_add]
  · rw [here, changes_cons]
    exact Nat.le_add_right _ _
  · rw [here]
    exact Multiset.mem_cons_of_mem member

/-- A call becomes one that is no change. -/
theorem Inv.turn (inv : m.Inv) (here : m.calls = c ::ₘ rest) {active : Multiset Sub}
    (held : active = m.subs + (c'.held + (rest.map Call.held).sum)) (idle : c'.busy = false) :
    { m with active := active, calls := c' ::ₘ rest }.Inv := by
  refine inv.beside ?_ ?_ fun c'' member busy => ?_
  · rw [held_cons]
    exact held
  · rw [here, changes_cons, changes_cons, if_neg (by rw [idle]; exact Bool.false_ne_true), Nat.add_zero]
    exact Nat.le_add_right _ _
  · rcases Multiset.mem_cons.mp member with rfl | there
    · exact Bool.noConfusion (idle.symm.trans busy)
    · rw [here]
      exact Multiset.mem_cons_of_mem there

theorem Inv.become (inv : m.Inv) (here : m.calls = c ::ₘ rest) (same : c'.held = c.held) (idle : c'.busy = false) :
    { m with calls := c' ::ₘ rest }.Inv := by
  refine inv.turn here ?_ idle
  rw [same]
  exact inv.active_cons here

theorem stop_inv (inv : m.Inv) (alone : m.Alone .stop) : m.stop.Inv := by
  unfold stop
  split_ifs with running
  · refine Inv.idle (alone running) ?_ fun _ => rfl
    dsimp only
    rw [inv.active, add_tsub_cancel_left, Multiset.coe_nil, zero_add]
  · exact inv

theorem stop_calls (m : Manager) : m.stop.calls = m.calls := by
  unfold stop
  split_ifs <;> rfl

theorem Inv.fits_change (inv : m.Inv) (here : m.calls = c ::ₘ rest) (busy : c.busy = true) :
    m.running = true ∧ c.Fits m :=
  inv.fits c (here ▸ Multiset.mem_cons_self c rest) busy

theorem step_inv {act : Act} (inv : m.Inv) (step : Step m act m') (alone : m.Alone act) : m'.Inv := by
  cases step with
  | callStart subjects => exact inv.call rfl rfl
  | callSetSubjects subjects => exact inv.call rfl rfl
  | callStop => exact inv.call rfl rfl
  | stop here => exact (stop_inv inv alone).returned ((stop_calls m).trans here) rfl
  | stopFirst here => exact (stop_inv inv alone).become ((stop_calls m).trans here) rfl rfl
  | stopFailed here => exact (stop_inv inv alone).returned ((stop_calls m).trans here) rfl
  | @begin rest subjects here =>
    have idle : ∀ c ∈ rest, c.busy = false := fun c member => Bool.eq_false_iff.mpr fun busy =>
      Bool.noConfusion (Eq.trans (Eq.symm alone) (inv.fits c (here ▸ Multiset.mem_cons_of_mem member) busy).1)
    refine Inv.change idle rfl ?_ rfl ?_
    · rw [held_cons, inv.active_cons here]
      rfl
    · rw [Call.Fits, inv.stopped alone]
      rfl
  | @subscribe rest p todo here =>
    obtain ⟨running, fits⟩ := inv.fits_change here rfl
    refine Inv.change (inv.alone here rfl) rfl ?_ running fits
    rw [held_cons, inv.active_cons here]
    simp only [Call.held, zero_add, ← Multiset.singleton_add]
    abel
  | refuse here => exact inv.become here rfl rfl
  | @append rest sub todo here =>
    obtain ⟨running, fits⟩ := inv.fits_change here rfl
    refine Inv.change (inv.alone here rfl) rfl ?_ running ?_
    · rw [held_cons, inv.active_cons here]
      simp only [Call.held, zero_add, ← Multiset.coe_add, Multiset.coe_singleton]
      abel
    · rw [Call.Fits, List.map_append, List.append_assoc]
      exact fits
  | started here => exact inv.returned here rfl
  | @take rest subjects here running =>
    have idle : ∀ c ∈ rest, c.busy = false := fun c member =>
      alone running c (here ▸ Multiset.mem_cons_of_mem member)
    refine Inv.change idle rfl ?_ running ⟨rfl, rfl⟩
    rw [held_cons, inv.active_cons here]
    simp only [Call.held, zero_add, Multiset.coe_nil]
  | restart here stopped => exact inv.become here rfl rfl
  | @unsubscribe rest sub old subjects here =>
    obtain ⟨running, fits⟩ := inv.fits_change here rfl
    refine Inv.change (inv.alone here rfl) rfl ?_ running fits
    rw [held_cons, inv.active_cons here]
    simp only [Call.held, ← Multiset.cons_coe, Multiset.cons_add, Multiset.add_cons, Multiset.erase_cons_head]
  | @released rest subjects here =>
    obtain ⟨running, none, same⟩ := inv.fits_change here rfl
    refine Inv.change (inv.alone here rfl) rfl ?_ running ⟨none, same⟩
    rw [held_cons, inv.active_cons here]
    rfl
  | @resubscribe rest subs p todo here =>
    obtain ⟨running, none, fits⟩ := inv.fits_change here rfl
    refine Inv.change (inv.alone here rfl) rfl ?_ running ⟨none, ?_⟩
    · rw [held_cons, inv.active_cons here]
      simp only [Call.held, ← Multiset.coe_add, Multiset.coe_singleton, ← Multiset.singleton_add]
      abel
    · rw [List.map_append, List.append_assoc]
      exact fits
  | refuseAgain here => exact inv.become here rfl rfl
  | @backOut rest sub subs here =>
    -- the change that is backed out of is none any more, and another may be under way
    refine inv.turn here ?_ rfl
    rw [inv.active_cons here]
    simp only [Call.held, ← Multiset.cons_coe, Multiset.cons_add, Multiset.add_cons, Multiset.erase_cons_head]
  | backedOut here => exact inv.returned here rfl
  | @store rest subs here =>
    obtain ⟨running, none, fits⟩ := inv.fits_change here rfl
    refine Inv.idle (inv.alone here rfl) ?_ fun stopped => Bool.noConfusion (stopped.symm.trans running)
    dsimp only
    rw [inv.active_cons here, none]
    simp only [Call.held, Multiset.coe_nil, zero_add]

/-- Nothing that runs has still to set the subscriptions, or to stop what it could not start. -/
def Settled (m : Manager) : Prop := ∀ c ∈ m.calls, c.busy = false ∧ c ≠ .failed

/-- Where no `Subscribe` of a `SetSubjects` fails, whoever sets the patterns sees to their
subscriptions. -/
def Kept (m : Manager) : Prop := m.Settled → m.Subscribed

theorem Settled.back (settled : ∀ c' ∈ rest, c'.busy = false ∧ c' ≠ .failed) (here : m.calls = c ::ₘ rest)
    (idle : c.busy = false ∧ c ≠ .failed) : m.Settled := by
  intro c' member
  rw [here] at member
  rcases Multiset.mem_cons.mp member with rfl | there
  · exact idle
  · exact settled c' there

theorem not_settled (calls : m.calls = c ::ₘ rest) (busy : ¬ (c.busy = false ∧ c ≠ .failed)) : ¬ m.Settled :=
  fun settled => busy (settled c (calls ▸ Multiset.mem_cons_self c rest))

theorem stop_stopped (m : Manager) : m.stop.running = false := by
  unfold stop
  split_ifs with running
  · rfl
  · exact Bool.eq_false_iff.mpr running

theorem step_kept {act : Act} (inv : m.Inv) (kept : m.Kept) (step : Step m act m') (accepted : act ≠ .refuseAgain) :
    m'.Kept := by
  intro settled
  cases step with
  | callStart subjects => exact kept fun c member => settled c (Multiset.mem_cons_of_mem member)
  | callSetSubjects subjects => exact kept fun c member => settled c (Multiset.mem_cons_of_mem member)
  | callStop => exact kept fun c member => settled c (Multiset.mem_cons_of_mem member)
  | stop here => exact fun running => Bool.noConfusion ((stop_stopped m).symm.trans running)
  | stopFirst here => exact fun running => Bool.noConfusion ((stop_stopped m).symm.trans running)
  | stopFailed here => exact fun running => Bool.noConfusion ((stop_stopped m).symm.trans running)
  | begin here => exact absurd settled (not_settled rfl (by simp [Call.busy]))
  | subscribe here => exact absurd settled (not_settled rfl (by simp [Call.busy]))
  | refuse here => exact absurd settled (not_settled rfl (by simp [Call.busy]))
  | append here => exact absurd settled (not_settled rfl (by simp [Call.busy]))
  | started here =>
    obtain ⟨_, fits⟩ := inv.fits_change here rfl
    exact fun _ => (List.append_nil _).symm.trans fits
  | take here running => exact absurd settled (not_settled rfl (by simp [Call.busy]))
  | restart here stopped => exact fun running => Bool.noConfusion (stopped.symm.trans running)
  | unsubscribe here => exact absurd settled (not_settled rfl (by simp [Call.busy]))
  | released here => exact absurd settled (not_settled rfl (by simp [Call.busy]))
  | resubscribe here => exact absurd settled (not_settled rfl (by simp [Call.busy]))
  | refuseAgain here => exact absurd rfl accepted
  | backOut here =>
    exact kept (.back (fun c member => settled c (Multiset.mem_cons_of_mem member)) here ⟨rfl, nofun⟩)
  | backedOut here => exact kept (.back settled here ⟨rfl, nofun⟩)
  | store here =>
    obtain ⟨_, none, fits⟩ := inv.fits_change here rfl
    exact fun _ => (List.append_nil _).symm.trans fits

theorem new_inv : newManager.Inv :=
  Inv.idle (fun c member => absurd member (Multiset.notMem_zero c)) rfl fun _ => rfl

theorem Inv.owned (inv : m.Inv) (returned : m.calls = 0) : m.Owned := by
  have active : m.active = m.subs := by
    rw [inv.active, returned, Multiset.map_zero, Multiset.sum_zero, add_zero]
  have stopped (at_ : m.running = false) : m.active = 0 := by
    rw [active, inv.stopped at_]
    rfl
  refine { active := active, stopped := stopped, stop := ?_ }
  unfold stop
  split_ifs with running
  · rw [active]
    exact tsub_self _
  · exact stopped (Bool.eq_false_iff.mpr running)

/-- What NATS delivers to a manager is what it knows of, and as long as every `Subscribe`
of a change succeeds what it was told. -/
theorem returned_owned {acts : List Act} (returned : m.calls = 0)
    (run : Transition.Reaches (fun m act m' => Step m act m' ∧ m.Alone act) newManager acts m) :
    m.Owned ∧ (Act.refuseAgain ∉ acts → m.Subscribed) := by
  have both : m.Inv ∧ (Act.refuseAgain ∉ acts → m.Kept) := by
    clear returned
    induction run with
    | refl => exact ⟨new_inv, fun _ _ running => Bool.noConfusion running⟩
    | next _ last ih =>
      obtain ⟨inv, kept⟩ := ih
      refine ⟨step_inv inv last.1 last.2, fun accepted => ?_⟩
      rw [List.mem_append, List.mem_singleton, not_or] at accepted
      exact step_kept inv (kept accepted.1) last.1 (Ne.symm accepted.2)
  refine ⟨both.1.owned returned, fun accepted => both.2 accepted fun c member => ?_⟩
  rw [returned] at member
  exact absurd member (Multiset.notMem_zero c)

/-- A manager is started, and its pattern changed. -/
theorem owned_changed : ∃ m : Manager, m.Owned ∧ m.Subscribed ∧ m.running = true ∧ m.patterns = [['b']] := by
  have start : Transition.Reaches (fun m act m' => Step m act m' ∧ m.Alone act) newManager [] newManager := .refl _
  have none {c : Call} (member : c ∈ (0 : Multiset Call)) {P : Prop} : P := absurd member (Multiset.notMem_zero c)
  have run := start
    |>.next ⟨.callStart [['a']], trivial⟩
    |>.next ⟨.stopFirst rfl, nofun⟩
    |>.next ⟨.begin rfl, rfl⟩
    |>.next ⟨.subscribe rfl, trivial⟩
    |>.next ⟨.append rfl, trivial⟩
    |>.next ⟨.started rfl, trivial⟩
    |>.next ⟨.callSetSubjects [['b']], trivial⟩
    |>.next ⟨.take rfl rfl, fun _ c member => by
      rw [Multiset.mem_singleton.mp member]
      rfl⟩
    |>.next ⟨.unsubscribe rfl, trivial⟩
    |>.next ⟨.released rfl, trivial⟩
    |>.next ⟨.resubscribe rfl, trivial⟩
    |>.next ⟨.store rfl, trivial⟩
  obtain ⟨owned, subscribed⟩ := returned_owned rfl run
  exact ⟨_, owned, subscribed (by decide), rfl, rfl⟩

/-- A stop while `SetSubjects` has the subscriptions finds none, and `SetSubjects` stores its
new ones into a manager that is stopped. -/
theorem subscribed_stopped : ¬ ∀ (acts : List Act) (m : Manager), Transition.Reaches Step newManager acts m →
    m.calls = 0 → m.Owned ∧ m.Subscribed := by
  intro claim
  have start : Transition.Reaches Step newManager [] newManager := .refl _
  have run := start
    |>.next (.callStart [['a']])
    |>.next (@Step.stopFirst _ 0 [['a']] rfl)
    |>.next (@Step.begin _ 0 [['a']] rfl)
    |>.next (@Step.subscribe _ 0 ['a'] [] rfl)
    |>.next (@Step.append _ 0 ⟨0, ['a']⟩ [] rfl)
    |>.next (@Step.started _ 0 rfl)
    |>.next (.callSetSubjects [['b']])
    |>.next (@Step.take _ 0 [['b']] rfl rfl)
    |>.next (@Step.unsubscribe _ 0 ⟨0, ['a']⟩ [] [['b']] rfl)
    |>.next (@Step.released _ 0 [['b']] rfl)
    |>.next .callStop
    |>.next (@Step.stop _ {.resubscribe [] [['b']]} rfl)
    |>.next (@Step.resubscribe _ 0 [] ['b'] [] rfl)
    |>.next (@Step.store _ 0 [⟨1, ['b']⟩] rfl)
  exact absurd ((claim _ _ run rfl).1.stopped rfl) (by decide)

end Manager
end NatsExplorer.Subscription.Subscribing
