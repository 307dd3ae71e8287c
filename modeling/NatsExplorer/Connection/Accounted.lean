import NatsExplorer.Connection.Requests

/-! Every running manager is in the map of the managers, every manager there has a connection, and every
open NATS connection is of one, where no two requests get between each other's steps. -/
namespace NatsExplorer.Connection.Requests
open Go Calls.System

def Managed.Linked (x : Managed) : Prop := x.nc = true ∨ x.live ≠ none ∨ x.system = true

/-- What holds once all requests are answered. -/
structure State.Accounted (s : State) : Prop where
  managers : ∀ m mgr, s.managers[m]? = some mgr → mgr.running = true → s.subManagers mgr.connID = some m
  entries : ∀ id m, s.subManagers id = some m → s.connections id ≠ none
  links : ∀ r x, s.managed[r]? = some x → x.Linked → s.connections x.id = some r

/-- No operation undoes what another request did since it looked: an entry is not replaced unseen, a
manager is added where there is none and for an entry, an entry goes after its manager, a stopped
manager is not started again, and a live connection is opened for an entry. -/
def Apart (s : State) (pending : Op → Prop) : Op → Bool → Prop
  | .register x, _ => s.connections x.id = none
  | .addManager id _, _ => s.subManagers id = none ∧ s.connections id ≠ none
  | .remove id, _ => s.subManagers id = none
  | .setSubjects _ m _ _ _, _ => s.runs m = true
  | .redial _ r _, ok => ok = true → ∀ x, s.managed[r]? = some x → x.live = none →
      s.connections x.id = some r ∨ pending (.close r)
  | _, _ => True

theorem getElem?_concat_some {α : Type} {l : List α} {a b : α} {i : Nat} (found : (l ++ [a])[i]? = some b) :
    l[i]? = some b ∨ i = l.length ∧ a = b := by
  rcases Nat.lt_trichotomy i l.length with less | rfl | more
  · exact Or.inl ((List.getElem?_append_left less).symm.trans found)
  · exact Or.inr ⟨rfl, by simpa using found⟩
  · simp [List.getElem?_append, show ¬ i < l.length by omega, show i - l.length ≠ 0 by omega] at found

theorem getElem?_concat_old {α : Type} {l : List α} {a b : α} {i : Nat} (found : l[i]? = some b) :
    (l ++ [a])[i]? = some b :=
  (List.getElem?_append_left (List.getElem?_eq_some_iff.mp found).1).trans found

namespace State
variable {s : State} {P Q : Op → Prop}

theorem stopManager_some {id id' : Str} {m : Nat} :
    (s.stopManager id).1.subManagers id' = some m ↔ id' ≠ id ∧ s.subManagers id' = some m := by
  by_cases here : id' = id <;> simp [State.stopManager, here]

theorem update_some {r r' : Nat} {f : Managed → Managed} {x : Managed} :
    (s.update r f).managed[r']? = some x ↔ ∃ old, s.managed[r']? = some old ∧ (if r = r' then f old else old) = x := by
  simp only [State.update, List.getElem?_modify, Option.map_eq_map, Option.map_eq_some_iff]

theorem updateManager_some {m m' : Nat} {f : Manager → Manager} {mgr : Manager} :
    (s.updateManager m f).managers[m']? = some mgr ↔
      ∃ old, s.managers[m']? = some old ∧ (if m = m' then f old else old) = mgr := by
  simp only [State.updateManager, List.getElem?_modify, Option.map_eq_map, Option.map_eq_some_iff]

/-- What is not accounted for is about to be stopped or closed. -/
structure Inv (s : State) (P : Op → Prop) : Prop where
  running : ∀ {m mgr}, s.managers[m]? = some mgr → mgr.running = true →
    s.subManagers mgr.connID = some m ∨ P (.stop m)
  manager : ∀ {id m}, s.subManagers id = some m → ∃ mgr, s.managers[m]? = some mgr ∧ mgr.connID = id
  entry : ∀ {id m}, s.subManagers id = some m → s.connections id ≠ none
  managed : ∀ {id r}, s.connections id = some r → ∃ x, s.managed[r]? = some x ∧ x.id = id
  links : ∀ {r x}, s.managed[r]? = some x → x.Linked → s.connections x.id = some r ∨ P (.close r)
  starting : ∀ {id mgr}, P (.addManager id mgr) → mgr.connID = id

theorem Inv.pending (inv : Inv s P)
    (stops : ∀ {m mgr}, s.managers[m]? = some mgr → mgr.running = true → P (.stop m) → Q (.stop m))
    (closes : ∀ {r x}, s.managed[r]? = some x → x.Linked → P (.close r) → Q (.close r))
    (adds : ∀ {id mgr}, Q (.addManager id mgr) → mgr.connID = id) : Inv s Q where
  running := fun found running => (inv.running found running).imp_right (stops found running)
  manager := inv.manager
  entry := inv.entry
  managed := inv.managed
  links := fun found linked => (inv.links found linked).imp_right (closes found linked)
  starting := adds

theorem Inv.update {r : Nat} {f : Managed → Managed} (inv : Inv s P) (same : ∀ x, (f x).id = x.id)
    (opens : ∀ x, s.managed[r]? = some x → (f x).Linked → x.Linked ∨ s.connections x.id = some r ∨ P (.close r)) :
    Inv (s.update r f) P where
  running := inv.running
  manager := inv.manager
  entry := inv.entry
  managed := by
    intro id r' named
    obtain ⟨x, found, rfl⟩ := inv.managed named
    refine ⟨_, update_some.mpr ⟨x, found, rfl⟩, ?_⟩
    split
    · exact same x
    · rfl
  links := by
    intro r' x found linked
    obtain ⟨old, before, rfl⟩ := update_some.mp found
    split at linked
    · next here =>
      subst here
      rw [if_pos rfl, same]
      exact (opens old before linked).elim (inv.links before) id
    · next other =>
      rw [if_neg other]
      exact inv.links before linked
  starting := inv.starting

theorem Inv.updateManager {m : Nat} {f : Manager → Manager} (inv : Inv s P) (same : ∀ mgr, (f mgr).connID = mgr.connID)
    (runs : ∀ mgr, s.managers[m]? = some mgr → (f mgr).running = true → mgr.running = true) :
    Inv (s.updateManager m f) P where
  running := by
    intro m' mgr found running
    obtain ⟨old, before, rfl⟩ := updateManager_some.mp found
    split at running
    · next here =>
      subst here
      rw [if_pos rfl, same]
      exact inv.running before (runs old before running)
    · next other =>
      rw [if_neg other]
      exact inv.running before running
  manager := by
    intro id m' named
    obtain ⟨mgr, found, rfl⟩ := inv.manager named
    refine ⟨_, updateManager_some.mpr ⟨mgr, found, rfl⟩, ?_⟩
    split
    · exact same mgr
    · rfl
  entry := inv.entry
  managed := inv.managed
  links := inv.links
  starting := inv.starting

theorem Inv.stopManager {id : Str} (inv : Inv s P) (taken : ∀ o ∈ (s.stopManager id).2, P o) :
    Inv (s.stopManager id).1 P where
  running := by
    intro m mgr found running
    rcases inv.running found running with named | stopping
    · by_cases here : mgr.connID = id
      · refine Or.inr (taken _ ?_)
        rw [here] at named
        simp [State.stopManager, named]
      · exact Or.inl (stopManager_some.mpr ⟨here, named⟩)
    · exact Or.inr stopping
  manager := fun named => inv.manager (stopManager_some.mp named).2
  entry := fun named => inv.entry (stopManager_some.mp named).2
  managed := inv.managed
  links := inv.links
  starting := inv.starting

theorem mem_registeredManagers {m : Nat} : m ∈ s.registeredManagers ↔
    ∃ mgr, s.managers[m]? = some mgr ∧ s.subManagers mgr.connID = some m := by
  simp only [registeredManagers, List.mem_filter, List.mem_range, Option.any_eq_true, decide_eq_true_eq]
  constructor
  · rintro ⟨-, mgr, found, named⟩
    exact ⟨mgr, found, named⟩
  · rintro ⟨mgr, found, named⟩
    exact ⟨(List.getElem?_eq_some_iff.mp found).1, mgr, found, named⟩

theorem Inv.disconnectAll (inv : Inv s P) (taken : ∀ m ∈ s.registeredManagers, P (.stop m)) :
    Inv { s with subManagers := fun _ => none } P where
  running := fun found running =>
    Or.inr ((inv.running found running).elim (fun named => taken _ (mem_registeredManagers.mpr ⟨_, found, named⟩)) id)
  manager := nofun
  entry := nofun
  managed := inv.managed
  links := inv.links
  starting := inv.starting

theorem Inv.register {x : Managed} (inv : Inv s P) (free : s.connections x.id = none) : Inv (s.register x) P where
  running := inv.running
  manager := inv.manager
  entry := by
    intro id m named
    by_cases here : id = x.id
    · simp [State.register, here]
    · simpa [State.register, here] using inv.entry named
  managed := by
    intro id r named
    by_cases here : id = x.id
    · subst here
      obtain rfl : s.managed.length = r := by simpa [State.register] using named
      exact ⟨x, by simp [State.register], rfl⟩
    · obtain ⟨old, found, same⟩ := inv.managed ((Function.update_of_ne here _ s.connections).symm.trans named)
      exact ⟨old, getElem?_concat_old found, same⟩
  links := by
    intro r old found linked
    rcases getElem?_concat_some found with found | ⟨rfl, rfl⟩
    · refine (inv.links found linked).imp_left fun named => ?_
      have other : old.id ≠ x.id := fun same => by simp [same, free] at named
      exact (Function.update_of_ne other _ s.connections).trans named
    · exact Or.inl (Function.update_self ..)
  starting := inv.starting

theorem Inv.addManager {id : Str} {mgr : Manager} (inv : Inv s P) (same : mgr.connID = id)
    (free : s.subManagers id = none) (known : s.connections id ≠ none) : Inv (s.addManager id mgr) P where
  running := by
    intro m old found running
    rcases getElem?_concat_some found with found | ⟨rfl, rfl⟩
    · refine (inv.running found running).imp_left fun named => ?_
      have other : old.connID ≠ id := fun same => by simp [same, free] at named
      exact (Function.update_of_ne other _ s.subManagers).trans named
    · exact Or.inl (same ▸ Function.update_self ..)
  manager := by
    intro id' m named
    by_cases here : id' = id
    · subst here
      obtain rfl : s.managers.length = m := by simpa [State.addManager] using named
      exact ⟨mgr, by simp [State.addManager], same⟩
    · obtain ⟨old, found, same⟩ := inv.manager ((Function.update_of_ne here _ s.subManagers).symm.trans named)
      exact ⟨old, getElem?_concat_old found, same⟩
  entry := by
    intro id' m named
    by_cases here : id' = id
    · rwa [here]
    · exact inv.entry ((Function.update_of_ne here _ s.subManagers).symm.trans named)
  managed := inv.managed
  links := inv.links
  starting := inv.starting

theorem Inv.remove {id : Str} (inv : Inv s P) (alone : s.subManagers id = none)
    (taken : ∀ r, s.connections id = some r → P (.close r)) :
    Inv { s with connections := Function.update s.connections id none } P where
  running := inv.running
  manager := inv.manager
  entry := by
    intro id' m named
    have other : id' ≠ id := fun same => by simp [same, alone] at named
    simpa [other] using inv.entry named
  managed := by
    intro id' r named
    by_cases here : id' = id
    · simp [here] at named
    · exact inv.managed ((Function.update_of_ne here none s.connections).symm.trans named)
  links := by
    intro r x found linked
    rcases inv.links found linked with named | closing
    · by_cases here : x.id = id
      · exact Or.inr (taken r (here ▸ named))
      · exact Or.inl ((Function.update_of_ne here none s.connections).trans named)
    · exact Or.inr closing
  starting := inv.starting

theorem on_adds {use : Use} {id id' : Str} {nc : Conn} {mgr : Manager} : Op.addManager id' mgr ∉ use.on id nc := by
  rcases use with subs | ⟨_ | m, subs⟩ | m | m <;> simp [Use.on]

theorem failed_adds {use : Use} {id id' : Str} {mgr : Manager} : Op.addManager id' mgr ∉ use.failed id := by
  cases use <;> simp [Use.failed]

theorem cause_adds {cause : Cause} {id id' : Str} {subs : List Str} {mgr : Manager} :
    Op.addManager id' mgr ∉ cause.failed id subs := by
  cases cause <;> simp [Cause.failed]

theorem exec_adds {op : Op} {ok : Bool} {id : Str} {mgr : Manager} (added : Op.addManager id mgr ∈ (s.exec op ok).2) :
    mgr.connID = id := by
  cases op
  all_goals
    simp only [exec] at added
    repeat' split at added
  all_goals first
    | exact absurd added on_adds
    | exact absurd added failed_adds
    | exact absurd added cause_adds
    | simp_all [State.stopManager]

theorem Inv.exec {op : Op} {ok : Bool} (inv : Inv s P) (begun : P op) (apart : Apart s P op ok)
    (next : Next P Q op (s.exec op ok).2) : Inv (s.exec op ok).1 Q := by
  have adds : ∀ {id mgr}, Q (.addManager id mgr) → mgr.connID = id := fun pending =>
    (next.only pending).elim inv.starting exec_adds
  have later (stop : ∀ m, op ≠ .stop m) (close : ∀ r, op ≠ .close r) : Inv s Q :=
    inv.pending (fun _ _ pending => next.kept pending (stop _).symm) (fun _ _ pending => next.kept pending (close _).symm) adds
  cases op with
  | stopReplaced id subs =>
    exact (later nofun nofun).stopManager fun o taken => next.added (List.mem_append_left _ taken)
  | disconnect id => exact (later nofun nofun).stopManager fun o taken => next.added (List.mem_append_left _ taken)
  | restart id subs => exact (later nofun nofun).stopManager fun o taken => next.added (List.mem_append_left _ taken)
  | stopManager id => exact (later nofun nofun).stopManager fun o taken => next.added taken
  | disconnectAll =>
    exact (later nofun nofun).disconnectAll fun m listed => next.added (List.mem_append_left _ (List.mem_map_of_mem listed))
  | register x => exact (later nofun nofun).register apart
  | addManager id mgr => exact (later nofun nofun).addManager (inv.starting begun) apart.1 apart.2
  | remove id =>
    refine (later nofun nofun).remove apart fun r named => next.added ?_
    simp [State.exec, named]
  | close r =>
    have closed : Inv (s.update r Managed.close) P := inv.update (fun _ => rfl) fun x _ linked => by
      simp [Managed.Linked, Managed.close] at linked
    refine closed.pending (fun _ _ pending => next.kept pending nofun) (fun {r' x} found linked pending => ?_) adds
    refine next.kept pending fun same => ?_
    cases same
    obtain ⟨old, -, rfl⟩ := update_some.mp found
    simp [Managed.Linked, Managed.close] at linked
  | stop m =>
    have stopped : Inv (s.updateManager m Manager.stop) P := inv.updateManager (fun _ => rfl) fun mgr _ running => by
      simp [Manager.stop] at running
    refine stopped.pending (fun {m' mgr} found running pending => ?_) (fun _ _ pending => next.kept pending nofun) adds
    refine next.kept pending fun same => ?_
    cases same
    obtain ⟨old, -, rfl⟩ := updateManager_some.mp found
    simp [Manager.stop] at running
  | setSubscriptions id subs =>
    simp only [State.exec]
    split
    · exact later nofun nofun
    · exact (later nofun nofun).update (fun _ => rfl) fun _ _ linked => Or.inl linked
  | setSubjects id m nc subs cause =>
    simp only [State.exec]
    split
    · exact (later nofun nofun).updateManager (fun _ => rfl) fun _ _ running => running
    · next stopped => exact absurd apart stopped
  | subscribe id m nc subs cause =>
    simp only [State.exec]
    split
    · exact (later nofun nofun).updateManager (fun _ => rfl) fun _ _ running => running
    · exact later nofun nofun
  | closeLive id r why =>
    exact (later nofun nofun).update (fun _ => rfl) fun x _ linked => Or.inl (linked.imp_right (Or.imp_left nofun))
  | moveLive r => exact (later nofun nofun).update (fun _ => rfl) fun _ _ linked => Or.inl linked
  | redial id r use =>
    simp only [State.exec]
    split
    · exact later nofun nofun
    · next x found =>
      split
      · exact later nofun nofun
      · next none =>
        split
        · next ok =>
          refine (later nofun nofun).update (fun _ => rfl) fun old here _ => Or.inr ?_
          obtain rfl : x = old := Option.some.inj (found.symm.trans here)
          exact (apart ok x found none).imp_right fun pending => next.kept pending nofun
        · exact (later nofun nofun).update (fun _ => rfl) fun _ _ linked => Or.inl linked
  | changed id subs =>
    simp only [State.exec]
    split <;> exact later nofun nofun
  | getLiveNC id use =>
    simp only [State.exec]
    split <;> exact later nofun nofun
  | openLive id r use =>
    simp only [State.exec]
    split
    · exact later nofun nofun
    · split
      · exact later nofun nofun
      · split <;> exact later nofun nofun
  | getNC id use =>
    simp only [State.exec]
    split <;> exact later nofun nofun
  | _ => exact later nofun nofun

theorem Inv.arrives {ops : List Op} (inv : Inv s P) (asked : Request ops) : Inv s fun o => P o ∨ o ∈ ops :=
  inv.pending (fun _ _ => Or.inl) (fun _ _ => Or.inl) fun pending =>
    pending.elim inv.starting fun listed => by cases asked <;> simp at listed

theorem Inv.accounts (inv : Inv s P) (done : ∀ o, ¬ P o) : s.Accounted where
  managers := fun _ _ found running => (inv.running found running).resolve_right (done _)
  entries := fun _ _ => inv.entry
  links := fun _ _ found linked => (inv.links found linked).resolve_right (done _)

theorem start_inv : Inv start fun _ => False where
  running := by simp [start]
  manager := nofun
  entry := nofun
  managed := nofun
  links := by simp [start]
  starting := nofun

end State

/-- Steps of which none gets between those of another request. -/
def Server.Apart (s : Server) (l : Calls.Act Op Bool) (t : Server) : Prop := s.Step l t ∧ Meets Requests.Apart s l

theorem pending_new : Server.new.Pending = fun _ => False := by
  funext o
  simp [Server.new, Pending]

theorem inv_apart {s : Server} {labels : List (Calls.Act Op Bool)}
    (run : Transition.Reaches Server.Apart Server.new labels s) : State.Inv s.state s.Pending :=
  Calls.System.invariant (fun asked inv => inv.arrives asked) (fun inv begun apart next => inv.exec begun apart next) run
    (by rw [pending_new]; exact State.start_inv)

end NatsExplorer.Connection.Requests
