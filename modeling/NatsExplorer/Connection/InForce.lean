import NatsExplorer.Connection.Accounted
import NatsExplorer.Connection.Saved

/-! The subscriptions in force are the ones recorded, where no two requests give a connection its list at
once, an empty list is not read as the catch-all, and what applies a list is not refused. -/
namespace NatsExplorer.Connection.Requests
open Go Calls.System

/-- The manager of each entry is subscribed to the recorded list, on a connection that is open. -/
def State.InForce (s : State) : Prop := ∀ id r x, s.connections id = some r → s.managed[r]? = some x →
  match s.subManagers id with
  | none => x.subscriptions = []
  | some m => ∃ mgr ∈ s.managers[m]?,
      mgr.running = true ∧ mgr.subs = x.subscriptions ∧ (x.subscriptions ≠ [] → s.Open mgr.nc)

/-- What a call still has to do with a list for the connection, or with a connection it asked for. -/
def Op.Carries (id : Str) : Op → Prop
  | .changed i _ => i = id
  | .restart i _ => i = id
  | .stopManager i => i = id
  | .getLiveNC i _ => i = id
  | .openLive i _ _ => i = id
  | .redial i _ _ => i = id
  | .getNC _ (.move _) => False
  | .getNC i _ => i = id
  | .start i _ _ => i = id
  | .addManager i _ => i = id
  | .setSubjects i _ _ _ _ => i = id
  | .subscribe i _ _ _ _ => i = id
  | .releaseLive i => i = id
  | .closeLive i _ .released => i = id
  | _ => False

/-- Whether `GetNC` has to answer: for a manager that is started, and for the registered one. -/
def State.Needs (s : State) (id : Str) : Use → Prop
  | .start _ => True
  | .change _ _ => False
  | .clear m => s.subManagers id = some m
  | .move m => s.subManagers id = some m

/-- No operation undoes what another request did. A list is given while none is being applied, a server is
named, no empty list is started or moved, and NATS does not refuse. -/
def Steady (s : State) (pending : Op → Prop) (op : Op) (ok : Bool) : Prop :=
  Apart s pending op ok ∧ match op with
  | .register x => ∀ o, pending o → ¬ o.Carries x.id
  | .setSubscriptions id _ => s.connections id ≠ none → ∀ o, pending o → ¬ o.Carries id
  | .replace id _ => s.connections id ≠ none → ok = true
  | .getNC id use => s.Needs id use → ∀ r, s.connections id = some r → s.Open (.nc r) ∧ ok = true
  | .start id nc subs => s.connections id ≠ none → subs ≠ [] ∧ s.subscribes nc subs ok = true
  | .addManager _ mgr => s.Open mgr.nc
  | .status id m _ => s.subManagers id = some m → s.subscriptions id ≠ []
  | .subscribe id m nc subs .move => s.subManagers id = some m → s.subscribes nc subs ok = true
  | _ => True

def Conn.owner : Conn → Nat
  | .nc r => r
  | .live r _ => r

def Op.Removes (id : Str) : Op → Prop
  | .remove i => i = id
  | .replace i _ => i = id
  | .all => True
  | _ => False

/-- `m` is the manager registered for the connection. -/
def Use.Applies (m : Option Nat) : Use → Prop
  | .start _ => True
  | .change none _ => True
  | .change (some m') _ => m = some m'
  | .clear m' => m = some m'
  | .move _ => False

def Op.Applies (id : Str) (m : Option Nat) : Op → Prop
  | .changed i _ => i = id
  | .restart i _ => i = id
  | .getLiveNC i use => i = id ∧ use.Applies m
  | .openLive i _ use => i = id ∧ use.Applies m
  | .redial i _ use => i = id ∧ use.Applies m
  | .getNC i use => i = id ∧ use.Applies m
  | .start i _ _ => i = id
  | .addManager i _ => i = id
  | .setSubjects i m' _ _ cause => i = id ∧ m = some m' ∧ cause ≠ .move
  | .subscribe i m' _ _ cause => i = id ∧ m = some m' ∧ cause ≠ .move
  | _ => False

/-- The live connection of the manager was given up, and its subscriptions will move. -/
def Op.Moves (id : Str) (m : Nat) : Op → Prop
  | .moved i => i = id
  | .getNC i (.move m') => i = id ∧ m' = m
  | .status i m' _ => i = id ∧ m' = m
  | .setSubjects i m' _ _ .move => i = id ∧ m' = m
  | .subscribe i m' _ _ .move => i = id ∧ m' = m
  | _ => False

/-- Operations that only look at the maps, or write what an entry points to. -/
def Op.Looks : Op → Prop
  | .setSubscriptions _ _ => True
  | .changed _ _ => True
  | .getLiveNC _ _ => True
  | .openLive _ _ _ => True
  | .redial _ _ _ => True
  | .getNC _ _ => True
  | _ => False

namespace State
variable {s t : State} {P Q : Op → Prop}

/-- What is recorded for the connection, as long as it has an entry. -/
def Records (s : State) (id : Str) (subs : List Str) : Prop :=
  ∀ r x, s.connections id = some r → s.managed[r]? = some x → x.subscriptions = subs

def Entry (s : State) (id : Str) (r : Nat) : Prop := ∀ r', s.connections id = some r' → r' = r

def Manages (s : State) (id : Str) (m : Nat) : Prop := ∃ mgr, s.managers[m]? = some mgr ∧ mgr.connID = id

def Named (s : State) (id : Str) (r : Nat) : Prop := ∃ x, s.managed[r]? = some x ∧ x.id = id

def UseOk (s : State) (id : Str) : Use → Prop
  | .start subs => s.Records id subs
  | .change m subs => s.Records id subs ∧ ∀ m', m = some m' → s.Manages id m'
  | .clear m => s.Records id [] ∧ s.Manages id m
  | .move m => s.Manages id m

/-- What an operation under way may rely on. -/
def OpOk (s : State) : Op → Prop
  | .changed id subs => s.Records id subs
  | .restart id subs => s.Records id subs
  | .stopManager id => s.Records id []
  | .getLiveNC id use => s.UseOk id use
  | .openLive id r use => s.UseOk id use ∧ s.Entry id r
  | .redial id r use => s.UseOk id use ∧ s.Entry id r
  | .getNC id use => s.UseOk id use
  | .start id nc subs => s.Records id subs ∧ s.Entry id nc.owner
  | .addManager id mgr => s.Records id mgr.subs ∧ s.Entry id mgr.nc.owner ∧ mgr.running = true
  | .setSubjects id m nc subs cause => s.Manages id m ∧ (cause = .clear → subs = []) ∧ (cause ≠ .move → s.Records id subs) ∧
      (s.subManagers id = some m → s.Records id subs ∧ s.Entry id nc.owner)
  | .subscribe id m nc subs cause => s.Manages id m ∧ (cause = .clear → subs = []) ∧ (cause ≠ .move → s.Records id subs) ∧
      (s.subManagers id = some m → s.Records id subs ∧ s.Entry id nc.owner)
  | .status id m nc => s.Manages id m ∧ (s.subManagers id = some m → s.Entry id nc.owner)
  | .releaseLive id => s.Records id []
  | .closeLive id r why => s.Named id r ∧ (why = .released → s.Records id [])
  | .stop m => m < s.managers.length ∧ ∀ id, s.subManagers id ≠ some m
  | .close r => r < s.managed.length ∧ ∀ id, s.connections id ≠ some r
  | _ => True

/-- What `OpOk` reads is kept, but for the lists and the entries of some connections. -/
structure Keeps (s t : State) (given : Str → Prop) : Prop where
  records : ∀ {id subs}, ¬ given id → s.Records id subs → t.Records id subs
  entry : ∀ {id r}, ¬ given id → s.Entry id r → t.Entry id r
  managed : ∀ {id m r}, t.subManagers id = some m → s.Entry id r → t.Entry id r
  named : ∀ {id r}, s.Named id r → t.Named id r
  manages : ∀ {id m}, s.Manages id m → t.Manages id m
  manager : ∀ {id m}, m < s.managers.length → t.subManagers id = some m → s.subManagers id = some m
  closed : ∀ {r id}, r < s.managed.length → t.connections id = some r → s.connections id = some r
  managers : s.managers.length ≤ t.managers.length
  entries : s.managed.length ≤ t.managed.length

theorem Manages.lt {id : Str} {m : Nat} (manages : s.Manages id m) : m < s.managers.length := by
  obtain ⟨mgr, found, -⟩ := manages
  exact (List.getElem?_eq_some_iff.mp found).1

theorem Keeps.useOk {given : Str → Prop} {id : Str} {use : Use} (keeps : Keeps s t given)
    (free : (∀ m, use ≠ .move m) → ¬ given id) (holds : s.UseOk id use) : t.UseOk id use := by
  cases use with
  | start subs => exact keeps.records (free nofun) holds
  | change m subs => exact ⟨keeps.records (free nofun) holds.1, fun m' is => keeps.manages (holds.2 m' is)⟩
  | clear m => exact ⟨keeps.records (free nofun) holds.1, keeps.manages holds.2⟩
  | move m => exact keeps.manages holds

theorem Keeps.opOk {given : Str → Prop} {o : Op} (keeps : Keeps s t given) (free : ∀ id, given id → ¬ o.Carries id)
    (holds : s.OpOk o) : t.OpOk o := by
  cases o with
  | changed id subs => exact keeps.records (fun is => free id is rfl) holds
  | restart id subs => exact keeps.records (fun is => free id is rfl) holds
  | stopManager id => exact keeps.records (fun is => free id is rfl) holds
  | getLiveNC id use => exact keeps.useOk (fun _ is => free id is rfl) holds
  | openLive id r use =>
    exact ⟨keeps.useOk (fun _ is => free id is rfl) holds.1, keeps.entry (fun is => free id is rfl) holds.2⟩
  | redial id r use =>
    exact ⟨keeps.useOk (fun _ is => free id is rfl) holds.1, keeps.entry (fun is => free id is rfl) holds.2⟩
  | getNC id use =>
    refine keeps.useOk (fun other is => free id is ?_) holds
    cases use with
    | move m => exact absurd rfl (other m)
    | _ => rfl
  | start id nc subs =>
    exact ⟨keeps.records (fun is => free id is rfl) holds.1, keeps.entry (fun is => free id is rfl) holds.2⟩
  | addManager id mgr =>
    exact ⟨keeps.records (fun is => free id is rfl) holds.1, keeps.entry (fun is => free id is rfl) holds.2.1, holds.2.2⟩
  | setSubjects id m nc subs cause =>
    obtain ⟨manages, clear, listed, registered⟩ := holds
    refine ⟨keeps.manages manages, clear, fun other => keeps.records (fun is => free id is rfl) (listed other), fun named => ?_⟩
    obtain ⟨records, entry⟩ := registered (keeps.manager manages.lt named)
    exact ⟨keeps.records (fun is => free id is rfl) records, keeps.entry (fun is => free id is rfl) entry⟩
  | subscribe id m nc subs cause =>
    obtain ⟨manages, clear, listed, registered⟩ := holds
    refine ⟨keeps.manages manages, clear, fun other => keeps.records (fun is => free id is rfl) (listed other), fun named => ?_⟩
    obtain ⟨records, entry⟩ := registered (keeps.manager manages.lt named)
    exact ⟨keeps.records (fun is => free id is rfl) records, keeps.entry (fun is => free id is rfl) entry⟩
  | status id m nc =>
    exact ⟨keeps.manages holds.1, fun named => keeps.managed named (holds.2 (keeps.manager holds.1.lt named))⟩
  | releaseLive id => exact keeps.records (fun is => free id is rfl) holds
  | closeLive id r why =>
    refine ⟨keeps.named holds.1, fun released => ?_⟩
    subst released
    exact keeps.records (fun is => free id is rfl) (holds.2 rfl)
  | stop m =>
    exact ⟨lt_of_lt_of_le holds.1 keeps.managers, fun id named => holds.2 id (keeps.manager holds.1 named)⟩
  | close r => exact ⟨lt_of_lt_of_le holds.1 keeps.entries, fun id named => holds.2 id (keeps.closed holds.1 named)⟩
  | _ => trivial

/-- No entry and no manager is new but a manager no operation knows, and no list is changed. -/
theorem keeps_of (connections : ∀ {id r}, t.connections id = some r → s.connections id = some r)
    (lists : ∀ {r : Nat} {y : Managed}, t.managed[r]? = some y →
      ∃ x : Managed, s.managed[r]? = some x ∧ y.subscriptions = x.subscriptions)
    (named : ∀ {id r}, s.Named id r → t.Named id r) (manages : ∀ {id m}, s.Manages id m → t.Manages id m)
    (manager : ∀ {id m}, m < s.managers.length → t.subManagers id = some m → s.subManagers id = some m)
    (managers : s.managers.length ≤ t.managers.length) (entries : s.managed.length ≤ t.managed.length) :
    Keeps s t fun _ => False where
  records := by
    intro id subs _ records r y entry found
    obtain ⟨x, found, same⟩ := lists found
    exact same.trans (records r x (connections entry) found)
  entry := fun _ entry r found => entry r (connections found)
  managed := fun _ entry r found => entry r (connections found)
  named := named
  manages := manages
  manager := manager
  closed := fun _ => connections
  managers := managers
  entries := entries

theorem keeps_stopManager {id : Str} : Keeps s (s.stopManager id).1 fun _ => False :=
  keeps_of (fun entry => entry) (fun found => ⟨_, found, rfl⟩) (fun named => named) (fun manages => manages)
    (fun _ named => (stopManager_some.mp named).2) le_rfl le_rfl

theorem keeps_disconnectAll : Keeps s { s with subManagers := fun _ => none } fun _ => False :=
  keeps_of (fun entry => entry) (fun found => ⟨_, found, rfl⟩) (fun named => named) (fun manages => manages) nofun
    le_rfl le_rfl

theorem remove_some {id id' : Str} {r : Nat} :
    Function.update s.connections id none id' = some r ↔ id' ≠ id ∧ s.connections id' = some r := by
  by_cases here : id' = id <;> simp [here]

theorem keeps_remove {id : Str} :
    Keeps s { s with connections := Function.update s.connections id none } fun _ => False :=
  keeps_of (fun entry => (remove_some.mp entry).2) (fun found => ⟨_, found, rfl⟩) (fun named => named)
    (fun manages => manages) (fun _ named => named) le_rfl le_rfl

theorem named_update {r r' : Nat} {f : Managed → Managed} {id : Str} (same : ∀ x, (f x).id = x.id)
    (named : s.Named id r') : (s.update r f).Named id r' := by
  obtain ⟨x, found, rfl⟩ := named
  refine ⟨_, update_some.mpr ⟨x, found, rfl⟩, ?_⟩
  split
  · exact same x
  · rfl

theorem keeps_update {r : Nat} {f : Managed → Managed} (same : ∀ x, (f x).id = x.id)
    (subs : ∀ x, (f x).subscriptions = x.subscriptions) : Keeps s (s.update r f) fun _ => False := by
  refine keeps_of (fun entry => entry) (fun {r' y} found => ?_) (named_update same) (fun manages => manages)
    (fun _ named => named) le_rfl (by simp [State.update])
  obtain ⟨x, before, rfl⟩ := update_some.mp found
  refine ⟨x, before, ?_⟩
  split
  · exact subs x
  · rfl

theorem keeps_updateManager {m : Nat} {f : Manager → Manager} (same : ∀ mgr, (f mgr).connID = mgr.connID) :
    Keeps s (s.updateManager m f) fun _ => False := by
  refine keeps_of (fun entry => entry) (fun found => ⟨_, found, rfl⟩) (fun named => named) (fun {id m'} manages => ?_)
    (fun _ named => named) (by simp [State.updateManager]) le_rfl
  obtain ⟨mgr, found, rfl⟩ := manages
  refine ⟨_, updateManager_some.mpr ⟨mgr, found, rfl⟩, ?_⟩
  split
  · exact same mgr
  · rfl

theorem keeps_addManager {id : Str} {mgr : Manager} : Keeps s (s.addManager id mgr) fun _ => False := by
  refine keeps_of (fun entry => entry) (fun found => ⟨_, found, rfl⟩) (fun named => named)
    (fun ⟨old, found, same⟩ => ⟨old, getElem?_concat_old found, same⟩) (fun {id' m} old named => ?_)
    (by simp [State.addManager]) le_rfl
  by_cases here : id' = id
  · subst here
    obtain rfl : s.managers.length = m := by simpa [State.addManager] using named
    exact absurd old (lt_irrefl _)
  · simpa [State.addManager, here] using named

theorem keeps_record {id : Str} {r : Nat} (subs : List Str) (inv : Inv s P) (named : s.connections id = some r) :
    Keeps s (s.update r fun x => { x with subscriptions := subs }) (· = id) where
  records := by
    intro id' list other records r' y named' found
    obtain ⟨x, before, rfl⟩ := update_some.mp found
    have apart : r ≠ r' := by
      rintro rfl
      obtain ⟨y, here, same⟩ := inv.managed named
      obtain ⟨y', here', same'⟩ := inv.managed named'
      obtain rfl : y = y' := Option.some.inj (here.symm.trans here')
      exact other (same'.symm.trans same)
    rw [if_neg apart]
    exact records r' x named' before
  entry := fun _ entry => entry
  managed := fun _ entry => entry
  named := named_update fun _ => rfl
  manages := fun manages => manages
  manager := fun _ named => named
  closed := fun _ entry => entry
  managers := le_rfl
  entries := by simp [State.update]

theorem register_some {x : Managed} {id : Str} {r : Nat} (other : id ≠ x.id) :
    (s.register x).connections id = some r ↔ s.connections id = some r := by
  simp [State.register, other]

theorem keeps_register {x : Managed} (inv : Inv s P) (free : s.connections x.id = none) :
    Keeps s (s.register x) (· = x.id) where
  records := by
    intro id subs other records r y named found
    have named := (register_some other).mp named
    obtain ⟨old, here, -⟩ := inv.managed named
    obtain rfl : old = y := Option.some.inj ((getElem?_concat_old here).symm.trans found)
    exact records r old named here
  entry := fun other entry r named => entry r ((register_some other).mp named)
  managed := by
    intro id m r named entry r' named'
    have other : id ≠ x.id := by
      rintro rfl
      exact inv.entry named free
    exact entry r' ((register_some other).mp named')
  named := fun ⟨y, found, same⟩ => ⟨y, getElem?_concat_old found, same⟩
  manages := fun manages => manages
  manager := fun _ named => named
  closed := by
    intro r id old named
    by_cases here : id = x.id
    · subst here
      obtain rfl : s.managed.length = r := by simpa [State.register] using named
      exact absurd old (lt_irrefl _)
    · exact (register_some here).mp named
  managers := le_rfl
  entries := by simp [State.register]

/-- What of a list is given by the request itself. -/
def Given (s : State) : Op → Str → Prop
  | .register x, id => id = x.id
  | .setSubscriptions i _, id => s.connections i ≠ none ∧ id = i
  | _, _ => False

theorem keeps_refl {given : Str → Prop} : Keeps s s given where
  records := fun _ records => records
  entry := fun _ entry => entry
  managed := fun _ entry => entry
  named := fun named => named
  manages := fun manages => manages
  manager := fun _ named => named
  closed := fun _ named => named
  managers := le_rfl
  entries := le_rfl

theorem exec_keeps {op : Op} {ok : Bool} (inv : Inv s P) (apart : Apart s P op ok) :
    Keeps s (s.exec op ok).1 (s.Given op) := by
  cases op with
  | stopReplaced id subs => exact keeps_stopManager
  | disconnect id => exact keeps_stopManager
  | restart id subs => exact keeps_stopManager
  | stopManager id => exact keeps_stopManager
  | disconnectAll => exact keeps_disconnectAll
  | register x => exact keeps_register inv apart
  | addManager id mgr => exact keeps_addManager
  | remove id => exact keeps_remove
  | close r => exact keeps_update (fun _ => rfl) fun _ => rfl
  | stop m => exact keeps_updateManager fun _ => rfl
  | setSubscriptions id subs =>
    simp only [State.exec]
    split
    · exact keeps_refl
    · next r named =>
      have keeps := keeps_record subs inv named
      exact { keeps with
        records := fun other => keeps.records fun is => other ⟨by simp [named], is⟩
        entry := fun other => keeps.entry fun is => other ⟨by simp [named], is⟩ }
  | setSubjects id m nc subs cause =>
    simp only [State.exec]
    repeat' split
    all_goals exact keeps_updateManager fun _ => rfl
  | subscribe id m nc subs cause =>
    simp only [State.exec]
    split
    · exact keeps_updateManager fun _ => rfl
    · exact keeps_refl
  | closeLive id r why => exact keeps_update (fun _ => rfl) fun _ => rfl
  | moveLive r => exact keeps_update (fun _ => rfl) fun _ => rfl
  | redial id r use =>
    simp only [State.exec]
    repeat' split
    all_goals first
      | exact keeps_refl
      | exact keeps_update (fun _ => rfl) fun _ => rfl
  | changed id subs =>
    simp only [State.exec]
    split <;> exact keeps_refl
  | getLiveNC id use =>
    simp only [State.exec]
    split <;> exact keeps_refl
  | openLive id r use =>
    simp only [State.exec]
    repeat' split
    all_goals exact keeps_refl
  | getNC id use =>
    simp only [State.exec]
    split <;> exact keeps_refl
  | _ => exact keeps_refl

/-- The registered manager holds the list on an open connection, or is about to move. -/
def Holds (s : State) (P : Op → Prop) (id : Str) (m : Nat) (subs : List Str) : Prop :=
  (∃ mgr, s.managers[m]? = some mgr ∧ mgr.subs = subs ∧ (subs ≠ [] → s.Open mgr.nc)) ∨ ∃ o, P o ∧ o.Moves id m

/-- The list is in force, or what will bring it there, or remove the entry, is pending. -/
def Due (s : State) (P : Op → Prop) (id : Str) (subs : List Str) : Prop :=
  (∃ o, P o ∧ o.Removes id) ∨ (∃ o, P o ∧ o.Applies id (s.subManagers id)) ∨
    (s.subManagers id = none → subs = []) ∧ ∀ m, s.subManagers id = some m → s.Holds P id m subs

theorem Due.next {id : Str} {subs : List Str} {op : Op} {pushed : List Op} (due : s.Due P id subs) (next : Next P Q op pushed)
    (removes : op.Removes id → s.Due Q id subs) (applies : op.Applies id (s.subManagers id) → s.Due Q id subs)
    (moves : ∀ m, s.subManagers id = some m → op.Moves id m → s.Due Q id subs) : s.Due Q id subs := by
  rcases due with ⟨o, pending, role⟩ | ⟨o, pending, role⟩ | ⟨empty, holds⟩
  · by_cases same : o = op
    · exact removes (same ▸ role)
    · exact Or.inl ⟨o, next.kept pending same, role⟩
  · by_cases same : o = op
    · exact applies (same ▸ role)
    · exact Or.inr (Or.inl ⟨o, next.kept pending same, role⟩)
  · cases named : s.subManagers id with
    | none => exact Or.inr (Or.inr ⟨fun _ => empty named, fun m named' => by simp [named] at named'⟩)
    | some m =>
      have settled (holds : s.Holds Q id m subs) : s.Due Q id subs := by
        refine Or.inr (Or.inr ⟨fun none => by simp [named] at none, fun m' named' => ?_⟩)
        obtain rfl : m = m' := Option.some.inj (named.symm.trans named')
        exact holds
      rcases holds m named with held | ⟨o, pending, role⟩
      · exact settled (Or.inl held)
      · by_cases same : o = op
        · exact moves m named (same ▸ role)
        · exact settled (Or.inr ⟨o, next.kept pending same, role⟩)

theorem Due.frame {id : Str} {subs : List Str} (due : s.Due P id subs) (same : t.subManagers id = s.subManagers id)
    (manager : ∀ m mgr, s.subManagers id = some m → s.managers[m]? = some mgr → t.managers[m]? = some mgr)
    (stays : ∀ m mgr, s.subManagers id = some m → s.managers[m]? = some mgr → subs ≠ [] → s.Open mgr.nc → t.Open mgr.nc) :
    t.Due P id subs := by
  unfold Due
  rw [same]
  refine due.imp_right (Or.imp_right fun ⟨empty, holds⟩ => ⟨empty, fun m named => ?_⟩)
  refine (holds m named).imp_left fun ⟨mgr, found, held, opened⟩ => ⟨mgr, manager m mgr named found, held, fun some => ?_⟩
  exact stays m mgr named found some (opened some)

theorem Due.mono {id : Str} {subs : List Str} (due : s.Due P id subs) (more : ∀ o, P o → Q o) : s.Due Q id subs := by
  refine due.imp (fun ⟨o, pending, role⟩ => ⟨o, more o pending, role⟩) (Or.imp (fun ⟨o, pending, role⟩ => ⟨o, more o pending, role⟩)
    fun ⟨empty, holds⟩ => ⟨empty, fun m named => ?_⟩)
  exact (holds m named).imp_right fun ⟨o, pending, role⟩ => ⟨o, more o pending, role⟩

/-- What a state under `Steady` steps keeps. -/
structure Steered (s : State) (P : Op → Prop) : Prop where
  base : Inv s P
  ops : ∀ {o}, P o → s.OpOk o
  running : ∀ {id m mgr}, s.subManagers id = some m → s.managers[m]? = some mgr → mgr.running = true
  owner : ∀ {id m mgr r}, s.subManagers id = some m → s.managers[m]? = some mgr → s.connections id = some r →
    mgr.nc.owner = r
  due : ∀ {id r x}, s.connections id = some r → s.managed[r]? = some x → s.Due P id x.subscriptions

variable {op : Op} {ok : Bool} {id : Str}

theorem subscribes_iff {nc : Conn} {subs : List Str} :
    s.subscribes nc subs ok = true ↔ subs = [] ∨ s.Open nc ∧ ok = true := by
  simp [subscribes]

theorem orAll_some {subs : List Str} (some : subs ≠ []) : orAll subs = subs := if_neg some

theorem records_of {r : Nat} {x : Managed} (named : s.connections id = some r) (found : s.managed[r]? = some x) :
    s.Records id x.subscriptions := by
  intro r' y named' found'
  obtain rfl : r = r' := Option.some.inj (named.symm.trans named')
  rw [Option.some.inj (found.symm.trans found')]

theorem entry_of {r : Nat} (named : s.connections id = some r) : s.Entry id r :=
  fun _ named' => Option.some.inj (named'.symm.trans named)

theorem on_ok {use : Use} {nc : Conn} (holds : s.UseOk id use) (entry : s.Entry id nc.owner) : ∀ o ∈ use.on id nc, s.OpOk o := by
  rcases use with subs | ⟨_ | m, subs⟩ | m | m
  · simpa [Use.on, OpOk] using ⟨holds, entry⟩
  · simpa [Use.on, OpOk] using holds.1
  · simpa [Use.on, OpOk] using ⟨holds.2 m rfl, holds.1, fun _ => ⟨holds.1, entry⟩⟩
  · simpa [Use.on, OpOk] using ⟨holds.2, holds.1, fun _ => ⟨holds.1, entry⟩⟩
  · simpa [Use.on, OpOk] using ⟨holds, fun _ => entry⟩

theorem failed_ok {use : Use} (holds : s.UseOk id use) : ∀ o ∈ use.failed id, s.OpOk o := by
  cases use with
  | change m subs => simpa [Use.failed, OpOk] using holds.1
  | _ => simp [Use.failed]

theorem cause_ok {cause : Cause} {subs : List Str} (clear : cause = .clear → subs = [])
    (records : cause ≠ .move → s.Records id subs) : ∀ o ∈ cause.failed id subs, s.OpOk o := by
  cases cause with
  | change => simpa [Cause.failed, OpOk] using records
  | clear =>
    obtain rfl := clear rfl
    simpa [Cause.failed, OpOk] using records
  | move => simp [Cause.failed]

theorem subscriptions_of {r : Nat} {x : Managed} (named : s.connections id = some r) (found : s.managed[r]? = some x) :
    s.subscriptions id = x.subscriptions := by
  simp [subscriptions, named, found]

theorem Keeps.transfer {o : Op} (keeps : Keeps s t fun _ => False) (holds : s.OpOk o) : t.OpOk o :=
  keeps.opOk (fun _ => False.elim) holds

theorem Steered.manages {m : Nat} (steered : s.Steered P) (named : s.subManagers id = some m) : s.Manages id m :=
  steered.base.manager named

theorem Steered.taken (steered : s.Steered P) : ∀ o ∈ (s.stopManager id).2, (s.stopManager id).1.OpOk o := by
  intro o listed
  obtain ⟨m, named, rfl⟩ : ∃ m, s.subManagers id = some m ∧ Op.stop m = o := by
    simpa [State.stopManager] using listed
  refine ⟨(steered.manages named).lt, fun id' named' => ?_⟩
  obtain ⟨other, named'⟩ := stopManager_some.mp named'
  obtain ⟨mgr, found, same⟩ := steered.manages named
  obtain ⟨mgr', found', same'⟩ := steered.manages named'
  obtain rfl : mgr = mgr' := Option.some.inj (found.symm.trans found')
  exact other (same'.symm.trans same)

theorem Inv.apart {id' : Str} {r : Nat} (base : Inv s P) (named : s.connections id = some r)
    (named' : s.connections id' = some r) : id = id' := by
  obtain ⟨x, found, rfl⟩ := base.managed named
  obtain ⟨y, found', rfl⟩ := base.managed named'
  rw [Option.some.inj (found.symm.trans found')]

theorem exec_pushed (steered : s.Steered P) (begun : P op) (steady : Steady s P op ok) :
    ∀ o ∈ (s.exec op ok).2, (s.exec op ok).1.OpOk o := by
  have holds := steered.ops begun
  cases op with
  | connect id subs =>
    simp only [State.exec]
    split <;> simp [OpOk]
  | stopReplaced id subs =>
    simp only [State.exec, List.mem_append, List.mem_singleton]
    rintro o (taken | rfl)
    · exact steered.taken o taken
    · trivial
  | replace id subs =>
    simp only [State.exec]
    repeat' split
    all_goals simp [OpOk]
  | dial id subs =>
    simp only [State.exec]
    split <;> simp [OpOk]
  | dialSystem x => simp [State.exec, OpOk]
  | dialLive x => simp [State.exec, OpOk]
  | register x =>
    have named : (s.register x).connections x.id = some s.managed.length := by simp [State.register]
    simpa [State.exec, OpOk, UseOk] using records_of named (List.getElem?_concat_length)
  | disconnect id =>
    simp only [State.exec, List.mem_append, List.mem_singleton]
    rintro o (taken | rfl)
    · exact steered.taken o taken
    · trivial
  | remove id =>
    simp only [State.exec, List.mem_map, Option.mem_toList]
    rintro o ⟨r, named, rfl⟩
    obtain ⟨x, found, rfl⟩ := steered.base.managed named
    refine ⟨(List.getElem?_eq_some_iff.mp found).1, fun id' named' => ?_⟩
    obtain ⟨other, named'⟩ := remove_some.mp named'
    obtain ⟨y, found', rfl⟩ := steered.base.managed named'
    exact other (congrArg Managed.id (Option.some.inj (found'.symm.trans found)))
  | close r => simp [State.exec]
  | disconnectAll =>
    simp only [State.exec, List.mem_append, List.mem_map, List.mem_singleton]
    rintro o (⟨m, listed, rfl⟩ | rfl)
    · obtain ⟨mgr, found, -⟩ := mem_registeredManagers.mp listed
      refine ⟨(List.getElem?_eq_some_iff.mp found).1, fun id named => ?_⟩
      cases named
    · trivial
  | all => simp [State.exec, OpOk]
  | setSubscriptions id subs =>
    simp only [State.exec]
    split
    · simp
    · next r named =>
      simp only [List.mem_singleton, forall_eq]
      intro r' y named' found
      obtain rfl : r = r' := Option.some.inj (named.symm.trans named')
      obtain ⟨x, -, rfl⟩ := update_some.mp found
      rw [if_pos rfl]
  | changed id subs =>
    simp only [State.exec]
    split
    · next empty =>
      subst empty
      simp only [List.mem_append, List.mem_map, Option.mem_toList, List.mem_singleton]
      rintro o (⟨m, named, rfl⟩ | rfl)
      · exact ⟨holds, steered.manages named⟩
      · exact holds
    · simpa [OpOk, UseOk] using ⟨holds, fun m named => steered.manages named⟩
  | restart id subs =>
    simp only [State.exec, List.mem_append, List.mem_singleton]
    rintro o (taken | rfl)
    · exact steered.taken o taken
    · exact keeps_stopManager.transfer (o := .getLiveNC id (.start subs)) holds
  | stopManager id => exact steered.taken
  | stop m => simp [State.exec]
  | getLiveNC id use =>
    simp only [State.exec]
    split
    · simpa [OpOk] using holds
    · next r named => simpa [OpOk] using ⟨holds, entry_of named⟩
  | openLive id r use =>
    simp only [State.exec]
    split
    · simp
    · split
      · exact on_ok holds.1 holds.2
      · split
        · simpa [OpOk] using holds.1
        · simpa [OpOk] using holds
  | redial id r use =>
    intro o listed
    refine Keeps.transfer (exec_keeps steered.base steady.1) ?_
    simp only [State.exec] at listed
    split at listed
    · simp at listed
    · split at listed
      · next n _ => exact on_ok holds.1 (show s.Entry id (Conn.live r n).owner from holds.2) o listed
      · split at listed
        · exact on_ok holds.1 (show s.Entry id (Conn.live r _).owner from holds.2) o listed
        · obtain rfl := List.mem_singleton.mp listed
          exact holds.1
  | getNC id use =>
    simp only [State.exec]
    split
    · exact failed_ok holds
    · next r named =>
      split
      · exact on_ok holds (entry_of named)
      · exact failed_ok holds
  | start id nc subs =>
    simp only [State.exec]
    split
    · simp only [List.mem_singleton, forall_eq]
      refine ⟨fun r x named found => ?_, holds.2, rfl⟩
      have some : subs ≠ [] := (steady.2 (by simp [named])).1
      rw [orAll_some some]
      exact holds.1 r x named found
    · simp
  | addManager id mgr => simp [State.exec]
  | setSubjects id m nc subs cause =>
    intro o listed
    refine Keeps.transfer (exec_keeps steered.base steady.1) ?_
    simp only [State.exec] at listed
    split at listed
    · obtain rfl := List.mem_singleton.mp listed
      exact holds
    · next stopped => exact absurd steady.1 stopped
  | subscribe id m nc subs cause =>
    simp only [State.exec]
    split
    · simp
    · exact cause_ok holds.2.1 holds.2.2.1
  | releaseLive id =>
    simp only [State.exec, List.mem_map, Option.mem_toList]
    rintro o ⟨r, named, rfl⟩
    exact ⟨steered.base.managed named, fun _ => holds⟩
  | closeLive id r why =>
    simp only [State.exec]
    split <;> simp [OpOk]
  | moveLive r =>
    simp only [State.exec, List.mem_map, Option.mem_toList]
    rintro o ⟨x, found, rfl⟩
    refine ⟨named_update (fun _ => rfl) ⟨x, found, rfl⟩, fun is => ?_⟩
    cases is
  | moved id =>
    simp only [State.exec, List.mem_map, Option.mem_toList]
    rintro o ⟨m, named, rfl⟩
    exact steered.manages named
  | status id m nc =>
    simp only [State.exec, List.mem_singleton, forall_eq]
    refine ⟨holds.1, fun is => ?_, absurd rfl, fun named => ⟨fun r x entry found => ?_, holds.2 named⟩⟩
    · cases is
    · rw [orAll_some (steady.2 named), subscriptions_of entry found]

theorem exec_ops (steered : s.Steered P) (begun : P op) (steady : Steady s P op ok)
    (next : Next P Q op (s.exec op ok).2) {o : Op} (pending : Q o) : (s.exec op ok).1.OpOk o := by
  rcases next.only pending with pending | listed
  · refine (exec_keeps steered.base steady.1).opOk (fun id given => ?_) (steered.ops pending)
    cases op with
    | register x => exact given ▸ steady.2 o pending
    | setSubscriptions i subs => exact given.2 ▸ steady.2 given.1 o pending
    | _ => exact given.elim
  · exact exec_pushed steered begun steady o listed

theorem Steered.unique {i : Str} {m : Nat} (steered : s.Steered P) (manages : s.Manages i m)
    (named : s.subManagers id = some m) : id = i := by
  obtain ⟨mgr, found, rfl⟩ := manages
  obtain ⟨mgr', found', rfl⟩ := steered.manages named
  rw [Option.some.inj (found.symm.trans found')]

/-- A registered manager is another than one that is stopped. -/
theorem Steered.other {m m' : Nat} (steered : s.Steered P) (stopping : P (.stop m)) (named : s.subManagers id = some m') :
    m ≠ m' := by
  rintro rfl
  exact (steered.ops stopping).2 id named

theorem exec_looks (looks : op.Looks) : (s.exec op ok).1.connections = s.connections ∧
    (s.exec op ok).1.subManagers = s.subManagers ∧ (s.exec op ok).1.managers = s.managers := by
  cases op with
  | setSubscriptions id subs =>
    simp only [State.exec]
    split <;> exact ⟨rfl, rfl, rfl⟩
  | changed id subs =>
    simp only [State.exec]
    split <;> exact ⟨rfl, rfl, rfl⟩
  | getLiveNC id use =>
    simp only [State.exec]
    split <;> exact ⟨rfl, rfl, rfl⟩
  | openLive id r use =>
    simp only [State.exec]
    repeat' split
    all_goals exact ⟨rfl, rfl, rfl⟩
  | redial id r use =>
    simp only [State.exec]
    repeat' split
    all_goals exact ⟨rfl, rfl, rfl⟩
  | getNC id use =>
    simp only [State.exec]
    split <;> exact ⟨rfl, rfl, rfl⟩
  | _ => exact looks.elim

theorem exec_registered {m : Nat} (steered : s.Steered P) (begun : P op) (steady : Steady s P op ok)
    (named : (s.exec op ok).1.subManagers id = some m) {mgr : Manager} (found : (s.exec op ok).1.managers[m]? = some mgr) :
    mgr.running = true ∧ ∀ r, (s.exec op ok).1.connections id = some r → mgr.nc.owner = r := by
  have holds := steered.ops begun
  have before (named : s.subManagers id = some m) (found : s.managers[m]? = some mgr)
      (entries : ∀ r, (s.exec op ok).1.connections id = some r → s.connections id = some r) :
      mgr.running = true ∧ ∀ r, (s.exec op ok).1.connections id = some r → mgr.nc.owner = r :=
    ⟨steered.running named found, fun r entry => steered.owner named found (entries r entry)⟩
  have looks (looks : op.Looks) : mgr.running = true ∧ ∀ r, (s.exec op ok).1.connections id = some r → mgr.nc.owner = r := by
    obtain ⟨connections, subManagers, managers⟩ : _ ∧ _ ∧ _ := exec_looks looks
    rw [subManagers] at named
    rw [managers] at found
    exact before named found fun r entry => connections ▸ entry
  cases op with
  | stopReplaced i subs => exact before (stopManager_some.mp named).2 found fun _ entry => entry
  | disconnect i => exact before (stopManager_some.mp named).2 found fun _ entry => entry
  | restart i subs => exact before (stopManager_some.mp named).2 found fun _ entry => entry
  | stopManager i => exact before (stopManager_some.mp named).2 found fun _ entry => entry
  | disconnectAll => simp [State.exec] at named
  | register x =>
    refine before named found fun r entry => (register_some ?_).mp entry
    rintro rfl
    exact steered.base.entry named steady.1
  | addManager i mgr' =>
    by_cases here : id = i
    · subst here
      obtain rfl : s.managers.length = m := by simpa [State.exec, State.addManager] using named
      obtain rfl : mgr' = mgr := by simpa [State.exec, State.addManager] using found
      exact ⟨holds.2.2, fun r entry => (holds.2.1 r entry).symm⟩
    · have named : s.subManagers id = some m := by simpa [State.exec, State.addManager, here] using named
      obtain ⟨old, known, -⟩ := steered.manages named
      obtain rfl : old = mgr := Option.some.inj ((getElem?_concat_old known).symm.trans found)
      exact before named known fun _ entry => entry
  | remove i => exact before named found fun r entry => (remove_some.mp entry).2
  | stop m' =>
    obtain ⟨old, known, rfl⟩ := updateManager_some.mp found
    rw [if_neg (steered.other begun named)] at *
    exact before named known fun _ entry => entry
  | setSubjects i m' nc subs cause =>
    have runs : s.runs m' = true := steady.1
    simp only [State.exec, if_pos runs] at named found ⊢
    obtain ⟨old, known, rfl⟩ := updateManager_some.mp found
    have same := steered.running named known
    have owner := fun r => steered.owner (r := r) named known
    split
    · exact ⟨same, owner⟩
    · exact ⟨same, owner⟩
  | subscribe i m' nc subs cause =>
    simp only [State.exec] at named found ⊢
    split at named
    · next subscribed =>
      simp only [if_pos subscribed] at found ⊢
      obtain ⟨old, known, rfl⟩ := updateManager_some.mp found
      have same := steered.running named known
      split
      · next here =>
        subst here
        obtain rfl := steered.unique holds.1 named
        exact ⟨same, fun r entry => ((holds.2.2.2 named).2 r entry).symm⟩
      · exact ⟨same, fun r => steered.owner named known⟩
    · next refused =>
      simp only [if_neg refused] at found ⊢
      exact ⟨steered.running named found, fun r => steered.owner named found⟩
  | setSubscriptions i subs => exact looks trivial
  | redial i r use => exact looks trivial
  | changed i subs => exact looks trivial
  | getLiveNC i use => exact looks trivial
  | openLive i r use => exact looks trivial
  | getNC i use => exact looks trivial
  | _ => exact before named found fun _ entry => entry

theorem open_update {r : Nat} {f : Managed → Managed} {nc : Conn} (opened : s.Open nc)
    (keeps : nc.owner = r → ∀ x, s.managed[r]? = some x →
      (x.nc = true → (f x).nc = true) ∧ ∀ n, x.live = some n → (f x).live = some n) :
    (s.update r f).Open nc := by
  cases nc with
  | nc r' =>
    obtain ⟨x, found, is⟩ := opened
    refine ⟨_, update_some.mpr ⟨x, found, rfl⟩, ?_⟩
    split
    · next here =>
      subst here
      exact (keeps rfl x found).1 is
    · exact is
  | live r' n =>
    obtain ⟨x, found, is⟩ := opened
    refine ⟨_, update_some.mpr ⟨x, found, rfl⟩, ?_⟩
    split
    · next here =>
      subst here
      exact (keeps rfl x found).2 n is
    · exact is

theorem open_register {x : Managed} {nc : Conn} (opened : s.Open nc) : (s.register x).Open nc := by
  cases nc with
  | nc r =>
    obtain ⟨y, found, is⟩ := opened
    exact ⟨y, getElem?_concat_old found, is⟩
  | live r n =>
    obtain ⟨y, found, is⟩ := opened
    exact ⟨y, getElem?_concat_old found, is⟩

theorem mem_registered {r : Nat} (base : Inv s P) (named : s.connections id = some r) : id ∈ s.registered := by
  obtain ⟨x, found, rfl⟩ := base.managed named
  exact List.mem_filterMap.mpr ⟨r, List.mem_range.mpr (List.getElem?_eq_some_iff.mp found).1, by simp [found, named]⟩

theorem on_applies {use : Use} {i : Str} {nc : Conn} {m : Option Nat} (is : i = id) (applies : use.Applies m) :
    ∃ o ∈ use.on i nc, o.Applies id m := by
  rcases use with subs | ⟨_ | m', subs⟩ | m' | m'
  · exact ⟨_, List.mem_singleton_self _, is⟩
  · exact ⟨_, List.mem_singleton_self _, is⟩
  · exact ⟨_, List.mem_singleton_self _, is, applies, nofun⟩
  · exact ⟨_, List.mem_singleton_self _, is, applies, nofun⟩
  · exact applies.elim

theorem due_holds {m : Nat} {subs : List Str} (named : s.subManagers id = some m) (holds : s.Holds P id m subs) :
    s.Due P id subs := by
  refine Or.inr (Or.inr ⟨fun empty => ?_, fun m' named' => ?_⟩)
  · simp [named] at empty
  · obtain rfl : m = m' := Option.some.inj (named.symm.trans named')
    exact holds

theorem due_applies {subs : List Str} {pushed : List Op} (next : Next P Q op pushed)
    (applies : ∃ o ∈ pushed, o.Applies id (s.subManagers id)) : s.Due Q id subs := by
  obtain ⟨o, listed, role⟩ := applies
  exact Or.inr (Or.inl ⟨o, next.added listed, role⟩)

theorem Due.stopManager {i : Str} {subs : List Str} (due : s.Due Q id subs) (other : id ≠ i) :
    (s.stopManager i).1.Due Q id subs :=
  due.frame (Function.update_of_ne other _ _) (fun _ _ _ found => found) fun _ _ _ _ _ opened => opened

theorem exec_due (steered : s.Steered P) (begun : P op) (steady : Steady s P op ok) (next : Next P Q op (s.exec op ok).2)
    {r : Nat} {x : Managed} (entry : (s.exec op ok).1.connections id = some r)
    (found : (s.exec op ok).1.managed[r]? = some x) : (s.exec op ok).1.Due Q id x.subscriptions := by
  have holds := steered.ops begun
  have idle {y : Managed} (entry : s.connections id = some r) (found : s.managed[r]? = some y) (removes : ¬ op.Removes id)
      (applies : ¬ op.Applies id (s.subManagers id)) (moves : ∀ m, ¬ op.Moves id m) : s.Due Q id y.subscriptions :=
    (steered.due entry found).next next (absurd · removes) (absurd · applies) fun m _ role => absurd role (moves m)
  cases op with
  | connect i subs => exact idle entry found not_false not_false fun _ => not_false
  | stopReplaced i subs =>
    by_cases here : id = i
    · exact Or.inl ⟨.replace i subs, next.added (by simp [State.exec]), here.symm⟩
    · exact (idle entry found not_false not_false fun _ => not_false).stopManager here
  | replace i subs =>
    refine (steered.due entry found).next next (fun is => ?_) False.elim fun _ _ => False.elim
    obtain rfl : i = id := is
    have named : s.connections i = some r := entry
    have ok := steady.2 (by simp [named])
    exact Or.inl ⟨.remove i, next.added (by simp [State.exec, named, ok]), rfl⟩
  | dial i subs => exact idle entry found not_false not_false fun _ => not_false
  | dialSystem y => exact idle entry found not_false not_false fun _ => not_false
  | dialLive y => exact idle entry found not_false not_false fun _ => not_false
  | register y =>
    by_cases here : id = y.id
    · exact Or.inr (Or.inl ⟨.getLiveNC y.id (.start y.subscriptions), next.added (by simp [State.exec]), here.symm, trivial⟩)
    · have named := (register_some here).mp entry
      obtain ⟨old, known, -⟩ := steered.base.managed named
      obtain rfl : old = x := Option.some.inj ((getElem?_concat_old known).symm.trans found)
      exact (idle named known not_false not_false fun _ => not_false).frame rfl (fun _ _ _ found => found)
        fun _ _ _ _ _ opened => open_register opened
  | disconnect i =>
    by_cases here : id = i
    · exact Or.inl ⟨.remove i, next.added (by simp [State.exec]), here.symm⟩
    · exact (idle entry found not_false not_false fun _ => not_false).stopManager here
  | remove i =>
    obtain ⟨other, named⟩ := remove_some.mp entry
    exact (idle named found (fun is => other is.symm) not_false fun _ => not_false).frame rfl (fun _ _ _ found => found)
      fun _ _ _ _ _ opened => opened
  | close r' =>
    obtain ⟨y, known, rfl⟩ := update_some.mp found
    have other : r' ≠ r := fun same => holds.2 id (same ▸ entry)
    rw [if_neg other]
    refine (idle entry known not_false not_false fun _ => not_false).frame rfl (fun _ _ _ found => found) ?_
    intro m mgr named here _ opened
    exact open_update opened fun owner => absurd (owner.symm.trans (steered.owner named here entry)) other
  | disconnectAll => exact Or.inl ⟨.all, next.added (by simp [State.exec]), trivial⟩
  | all =>
    refine (steered.due entry found).next next (fun _ => ?_) False.elim fun _ _ => False.elim
    exact Or.inl ⟨.remove id, next.added (List.mem_map_of_mem (mem_registered steered.base entry)), rfl⟩
  | setSubscriptions i subs =>
    cases named : s.connections i with
    | none =>
      simp only [State.exec, named] at next entry found ⊢
      exact idle entry found not_false not_false fun _ => not_false
    | some r' =>
      simp only [State.exec, named] at next entry found ⊢
      by_cases here : id = i
      · exact due_applies next ⟨_, List.mem_singleton_self _, here.symm⟩
      · obtain ⟨y, known, rfl⟩ := update_some.mp found
        have other : r' ≠ r := by
          rintro rfl
          exact here (steered.base.apart entry named)
        rw [if_neg other]
        refine (idle entry known not_false not_false fun _ => not_false).frame rfl (fun _ _ _ found => found) ?_
        exact fun _ _ _ _ _ opened => open_update opened fun _ _ _ => ⟨fun is => is, fun _ is => is⟩
  | changed i subs =>
    by_cases empty : subs = []
    · simp only [State.exec, if_pos empty] at next entry found ⊢
      refine (steered.due entry found).next next False.elim (fun is => ?_) fun _ _ => False.elim
      obtain rfl : i = id := is
      cases named : s.subManagers i with
      | none => exact Or.inr (Or.inr ⟨fun _ => (holds r x entry found).trans empty, fun m named' => by simp [named] at named'⟩)
      | some m => exact due_applies next ⟨.getNC i (.clear m), by simp [named], rfl, named⟩
    · simp only [State.exec, if_neg empty] at next entry found ⊢
      refine (steered.due entry found).next next False.elim (fun is => ?_) fun _ _ => False.elim
      obtain rfl : i = id := is
      refine due_applies next ⟨_, List.mem_singleton_self _, rfl, ?_⟩
      cases s.subManagers i with
      | none => trivial
      | some m => rfl
  | restart i subs =>
    by_cases here : id = i
    · exact Or.inr (Or.inl ⟨.getLiveNC i (.start subs), next.added (by simp [State.exec]), here.symm, trivial⟩)
    · exact (idle entry found not_false (fun is => here is.symm) fun _ => not_false).stopManager here
  | stopManager i =>
    by_cases here : id = i
    · subst here
      refine Or.inr (Or.inr ⟨fun _ => holds r x entry found, fun m named => ?_⟩)
      exact absurd rfl (stopManager_some.mp named).1
    · exact (idle entry found not_false not_false fun _ => not_false).stopManager here
  | stop m =>
    refine (idle entry found not_false not_false fun _ => not_false).frame rfl (fun m' mgr named known => ?_)
      fun _ _ _ _ _ opened => opened
    exact updateManager_some.mpr ⟨mgr, known, if_neg (steered.other begun named)⟩
  | getLiveNC i use =>
    cases named : s.connections i with
    | none =>
      simp only [State.exec, named] at next entry found ⊢
      refine idle entry found not_false (fun both => ?_) fun _ => not_false
      obtain ⟨is, -⟩ := both
      simp [← is, named] at entry
    | some r' =>
      simp only [State.exec, named] at next entry found ⊢
      exact (steered.due entry found).next next False.elim
        (fun applies => due_applies next ⟨_, List.mem_singleton_self _, applies⟩) fun _ _ => False.elim
  | openLive i r' use =>
    cases known : s.managed[r']? with
    | none =>
      simp only [State.exec, known] at next entry found ⊢
      refine idle entry found not_false (fun both => ?_) fun _ => not_false
      obtain ⟨is, -⟩ := both
      rw [holds.2 r (is ▸ entry), known] at found
      cases found
    | some y =>
      cases live : y.live with
      | some n =>
        simp only [State.exec, known, live] at next entry found ⊢
        refine (steered.due entry found).next next False.elim (fun both => ?_) fun _ _ => False.elim
        obtain ⟨is, applies⟩ := both
        exact due_applies next (on_applies is applies)
      | none =>
        by_cases refused : y.liveError = true
        · simp only [State.exec, known, live, if_pos refused] at next entry found ⊢
          exact (steered.due entry found).next next False.elim
            (fun applies => due_applies next ⟨_, List.mem_singleton_self _, applies⟩) fun _ _ => False.elim
        · simp only [State.exec, known, live, if_neg refused] at next entry found ⊢
          exact (steered.due entry found).next next False.elim
            (fun applies => due_applies next ⟨_, List.mem_singleton_self _, applies⟩) fun _ _ => False.elim
  | redial i r' use =>
    cases known : s.managed[r']? with
    | none =>
      simp only [State.exec, known] at next entry found ⊢
      refine idle entry found not_false (fun both => ?_) fun _ => not_false
      obtain ⟨is, -⟩ := both
      rw [holds.2 r (is ▸ entry), known] at found
      cases found
    | some y =>
      cases live : y.live with
      | some n =>
        simp only [State.exec, known, live] at next entry found ⊢
        refine (steered.due entry found).next next False.elim (fun both => ?_) fun _ _ => False.elim
        obtain ⟨is, applies⟩ := both
        exact due_applies next (on_applies is applies)
      | none =>
        by_cases dialled : ok = true
        · simp only [State.exec, known, live, if_pos dialled] at next entry found ⊢
          obtain ⟨old, before, rfl⟩ := update_some.mp found
          have due := (steered.due entry before).next next False.elim
            (fun both => due_applies next (on_applies both.1 both.2)) fun _ _ => False.elim
          have same : (if r' = r then { old with live := some old.dials, dials := old.dials + 1 } else old).subscriptions =
              old.subscriptions := by split <;> rfl
          rw [same]
          refine due.frame rfl (fun _ _ _ found => found) fun _ _ _ _ _ opened => open_update opened fun _ z here => ?_
          obtain rfl : y = z := Option.some.inj (known.symm.trans here)
          exact ⟨fun is => is, fun n is => by simp [live] at is⟩
        · simp only [State.exec, known, live, if_neg dialled] at next entry found ⊢
          obtain ⟨old, before, rfl⟩ := update_some.mp found
          have due := (steered.due entry before).next next False.elim
            (fun applies => due_applies next ⟨_, List.mem_singleton_self _, applies⟩) fun _ _ => False.elim
          have same : (if r' = r then { old with liveError := true } else old).subscriptions = old.subscriptions := by
            split <;> rfl
          rw [same]
          exact due.frame rfl (fun _ _ _ found => found) fun _ _ _ _ _ opened =>
            open_update opened fun _ _ _ => ⟨fun is => is, fun _ is => is⟩
  | getNC i use =>
    cases named : s.connections i with
    | none =>
      simp only [State.exec, named] at next entry found ⊢
      refine idle entry found not_false (fun both => ?_) fun m role => ?_
      · obtain ⟨is, -⟩ := both
        simp [← is, named] at entry
      · cases use with
        | move m' => simp [← role.1, named] at entry
        | _ => exact role
    | some r' =>
      by_cases answered : s.Open (.nc r') ∧ ok = true
      · simp only [State.exec, named, if_pos answered] at next entry found ⊢
        refine (steered.due entry found).next next False.elim
          (fun both => due_applies next (on_applies both.1 both.2)) fun m registered role => ?_
        cases use with
        | move m' => exact due_holds registered (Or.inr ⟨_, next.added (List.mem_singleton_self _), role⟩)
        | _ => exact role.elim
      · simp only [State.exec, named, if_neg answered] at next entry found ⊢
        refine (steered.due entry found).next next False.elim (fun both => ?_) fun m registered role => ?_
        · obtain ⟨is, applies⟩ := both
          subst is
          cases use with
          | start subs => exact absurd (steady.2 trivial r' named) answered
          | change m subs => exact due_applies next ⟨_, List.mem_singleton_self _, rfl⟩
          | clear m => exact absurd (steady.2 applies r' named) answered
          | move m => exact applies.elim
        · cases use with
          | move m' =>
            obtain ⟨rfl, rfl⟩ := role
            exact absurd (steady.2 registered r' named) answered
          | _ => exact role.elim
  | start i nc subs =>
    refine (steered.due entry found).next next False.elim (fun is => ?_) fun _ _ => False.elim
    obtain rfl : i = id := is
    have named : s.connections i = some r := entry
    obtain ⟨some, subscribed⟩ := steady.2 (by simp [named])
    exact due_applies next ⟨.addManager i ⟨i, true, subs, nc⟩, by simp [State.exec, orAll_some some, subscribed], rfl⟩
  | addManager i mgr =>
    by_cases here : id = i
    · subst here
      refine due_holds (m := s.managers.length) (by simp [State.exec, State.addManager]) (Or.inl ⟨mgr, ?_, ?_, fun _ => steady.2⟩)
      · simp [State.exec, State.addManager]
      · exact (holds.1 r x entry found).symm
    · exact (idle entry found not_false (fun is => here is.symm) fun _ => not_false).frame (Function.update_of_ne here _ _)
        (fun _ _ _ found => getElem?_concat_old found) fun _ _ _ _ _ opened => opened
  | setSubjects i m nc subs cause =>
    have runs : s.runs m = true := steady.1
    simp only [State.exec, if_pos runs] at next entry found ⊢
    by_cases registered : s.subManagers id = some m
    · obtain rfl := steered.unique holds.1 registered
      by_cases moves : cause = .move
      · subst moves
        exact due_holds registered (Or.inr ⟨_, next.added (List.mem_singleton_self _), rfl, rfl⟩)
      · exact due_applies next ⟨_, List.mem_singleton_self _, rfl, registered, moves⟩
    · have due := (steered.due entry found).next next False.elim (fun applies => absurd applies.2.1 registered)
        fun m' named role => by
          cases cause with
          | move => exact absurd (role.2 ▸ named) registered
          | _ => exact role.elim
      refine due.frame rfl (fun m' mgr named known => updateManager_some.mpr ⟨mgr, known, if_neg ?_⟩)
        fun _ _ _ _ _ opened => opened
      rintro rfl
      exact registered named
  | subscribe i m nc subs cause =>
    by_cases subscribed : s.subscribes nc subs ok = true
    · simp only [State.exec, if_pos subscribed] at next entry found ⊢
      by_cases registered : s.subManagers id = some m
      · obtain rfl := steered.unique holds.1 registered
        obtain ⟨mgr, known, -⟩ := holds.1
        have same : x.subscriptions = subs := (holds.2.2.2 registered).1 r x entry found
        refine due_holds registered (Or.inl ⟨_, updateManager_some.mpr ⟨mgr, known, if_pos rfl⟩, same.symm, fun some => ?_⟩)
        exact ((subscribes_iff.mp subscribed).resolve_left (same ▸ some)).1
      · have due := (steered.due entry found).next next False.elim (fun applies => absurd applies.2.1 registered)
          fun m' named role => by
            cases cause with
            | move => exact absurd (role.2 ▸ named) registered
            | _ => exact role.elim
        refine due.frame rfl (fun m' mgr named known => updateManager_some.mpr ⟨mgr, known, if_neg ?_⟩)
          fun _ _ _ _ _ opened => opened
        rintro rfl
        exact registered named
    · simp only [State.exec, if_neg subscribed] at next entry found ⊢
      refine (steered.due entry found).next next False.elim (fun both => ?_) fun m' named role => ?_
      · obtain ⟨is, -, other⟩ := both
        cases cause with
        | change => exact due_applies next ⟨_, List.mem_singleton_self _, is⟩
        | clear => exact absurd (subscribes_iff.mpr (Or.inl (holds.2.1 rfl))) subscribed
        | move => exact absurd rfl other
      · cases cause with
        | move =>
          obtain ⟨rfl, rfl⟩ := role
          exact absurd (steady.2 named) subscribed
        | _ => exact role.elim
  | releaseLive i => exact idle entry found not_false not_false fun _ => not_false
  | closeLive i r' why =>
    obtain ⟨y, known, rfl⟩ := update_some.mp found
    have due := idle entry known not_false not_false fun _ => not_false
    have same : (if r' = r then { y with live := none } else y).subscriptions = y.subscriptions := by split <;> rfl
    rw [same]
    by_cases here : r' = r
    · subst here
      obtain ⟨z, known', rfl⟩ := holds.1
      obtain ⟨z', known'', rfl⟩ := steered.base.managed entry
      obtain rfl : z = z' := Option.some.inj (known'.symm.trans known'')
      obtain rfl : z = y := Option.some.inj (known'.symm.trans known)
      cases why with
      | released =>
        have empty : z.subscriptions = [] := holds.2 rfl r' z entry known
        exact due.frame rfl (fun _ _ _ found => found) fun _ _ _ _ some => absurd empty some
      | moved =>
        refine due.imp_right (Or.imp_right fun both => ⟨both.1, fun m _ => Or.inr ⟨.moved z.id, ?_, rfl⟩⟩)
        exact next.added (by simp [State.exec])
    · refine due.frame rfl (fun _ _ _ found => found) fun m mgr named here' _ opened => open_update opened fun owner => ?_
      exact absurd (owner.symm.trans (steered.owner named here' entry)) here
  | moveLive r' =>
    obtain ⟨y, known, rfl⟩ := update_some.mp found
    have same : (if r' = r then { y with liveError := true } else y).subscriptions = y.subscriptions := by split <;> rfl
    rw [same]
    exact (idle entry known not_false not_false fun _ => not_false).frame rfl (fun _ _ _ found => found)
      fun _ _ _ _ _ opened => open_update opened fun _ _ _ => ⟨fun is => is, fun _ is => is⟩
  | moved i =>
    refine (steered.due entry found).next next False.elim False.elim fun m named role => ?_
    exact due_holds named (Or.inr ⟨.getNC i (.move m), next.added (by simp [State.exec, role ▸ named]), role, rfl⟩)
  | status i m nc =>
    refine (steered.due entry found).next next False.elim False.elim fun m' named role => ?_
    exact due_holds named (Or.inr ⟨_, next.added (List.mem_singleton_self _), role⟩)

theorem Steered.exec (steered : s.Steered P) (begun : P op) (steady : Steady s P op ok)
    (next : Next P Q op (s.exec op ok).2) : (s.exec op ok).1.Steered Q where
  base := steered.base.exec begun steady.1 next
  ops := exec_ops steered begun steady next
  running := fun named found => (exec_registered steered begun steady named found).1
  owner := fun named found => (exec_registered steered begun steady named found).2 _
  due := exec_due steered begun steady next

theorem Steered.arrives {ops : List Op} (steered : s.Steered P) (asked : Request ops) : s.Steered fun o => P o ∨ o ∈ ops where
  base := steered.base.arrives asked
  ops := fun pending => pending.elim steered.ops fun listed => by
    cases asked
    all_goals
      obtain rfl := List.mem_singleton.mp listed
      trivial
  running := steered.running
  owner := steered.owner
  due := fun entry found => (steered.due entry found).mono fun _ => Or.inl

theorem Steered.inForce (steered : s.Steered P) (done : ∀ o, ¬ P o) : s.InForce := by
  intro id r x entry found
  obtain ⟨o, pending, _⟩ | ⟨o, pending, _⟩ | ⟨empty, holds⟩ := steered.due entry found
  · exact absurd pending (done o)
  · exact absurd pending (done o)
  · cases named : s.subManagers id with
    | none => exact empty named
    | some m =>
      obtain ⟨mgr, known, held, opened⟩ | ⟨o, pending, _⟩ := holds m named
      · exact ⟨mgr, known, steered.running named known, held, opened⟩
      · exact absurd pending (done o)

theorem start_steered : start.Steered fun _ => False where
  base := start_inv
  ops := False.elim
  running := nofun
  owner := nofun
  due := nofun

end State

/-- Steps that meet the condition. -/
def Server.Steady (s : Server) (l : Calls.Act Op Bool) (t : Server) : Prop := s.Step l t ∧ Meets Requests.Steady s l

theorem answered_inForce {s : Server} {labels : List (Calls.Act Op Bool)}
    (run : Transition.Reaches Server.Steady Server.new labels s) (answered : s.calls = 0) : s.state.InForce := by
  have steered : s.state.Steered s.Pending :=
    Calls.System.invariant (fun asked steered => steered.arrives asked)
      (fun steered begun steady next => steered.exec begun steady next) run
      (by rw [pending_new]; exact State.start_steered)
  exact steered.inForce fun o ⟨c, member, _⟩ => by simp [answered] at member

/-- A connect, and its last pattern removed. -/
theorem connect_inForce : ∃ labels s, Transition.Reaches Server.Steady Server.new labels s ∧ s.calls = 0 ∧
    s.state.connections ['a'] = some 0 ∧ s.state.InForce := by
  have arrived : Transition.Reaches Server.Steady Server.new _ ⟨State.start, [.connect ['a'] [['x']]] ::ₘ 0⟩ :=
    .one ⟨.arrive (.connect _ _), trivial⟩
  obtain ⟨_, connected⟩ := exists_return [true, true, true, false, true, true, true, true, true, true] arrived
    ⟨⟨trivial, trivial⟩, ⟨trivial, nofun⟩, ⟨trivial, trivial⟩, ⟨trivial, trivial⟩, ⟨trivial, trivial⟩,
      ⟨rfl, by simp [Pending, Op.Carries]⟩, ⟨trivial, trivial⟩, ⟨trivial, trivial⟩, ⟨trivial, fun _ => ⟨nofun, by decide⟩⟩,
      ⟨⟨rfl, nofun⟩, by decide⟩, trivial⟩ rfl
  have changing := connected.next ⟨.arrive (.setSubscriptions ['a'] []), trivial⟩
  obtain ⟨_, run⟩ := exists_return [true, true, true, true, true, true, true] changing
    ⟨⟨trivial, fun _ => by simp [Pending, Op.Carries]⟩, ⟨trivial, trivial⟩, ⟨trivial, fun _ r named => by cases named; exact ⟨by decide, rfl⟩⟩, ⟨rfl, trivial⟩, ⟨trivial, trivial⟩,
      ⟨trivial, trivial⟩, ⟨trivial, trivial⟩, trivial⟩ rfl
  exact ⟨_, _, run, rfl, rfl, answered_inForce run rfl⟩

/-- The browser connects a saved connection. -/
def reconnect (saved : SavedConnection) : List Op :=
  [.connect (toConnectionConfig saved).id (toConnectionConfig saved).subscriptions]

/-- A connection without patterns is connected again: it listens to everything. -/
theorem connect_everything : ¬ ∀ (saved : SavedConnection) (s : Server) labels,
    Transition.Reaches (Step State.exec fun ops => ops = reconnect saved) Server.new labels s → s.calls = 0 →
    s.state.InForce := by
  intro always
  let saved := { newSavedConnection ['a'] with subscriptions := [] }
  let Free := fun (s : Server) l t =>
    Step State.exec (fun ops => ops = reconnect saved) s l t ∧ Meets (fun _ _ _ _ => True) s l
  have arrived : Transition.Reaches Free Server.new _ ⟨State.start, [.connect ['a'] []] ::ₘ 0⟩ := .one ⟨.arrive rfl, trivial⟩
  obtain ⟨_, run⟩ := exists_return [true, true, true, false, true, true, true, true, true, true] arrived
    ⟨trivial, trivial, trivial, trivial, trivial, trivial, trivial, trivial, trivial, trivial, trivial⟩ rfl
  obtain ⟨mgr, known, -, held, -⟩ := always saved _ _ (run.mono And.left) rfl ['a'] 0 _ rfl rfl
  cases known
  exact absurd held (by decide)

end NatsExplorer.Connection.Requests
