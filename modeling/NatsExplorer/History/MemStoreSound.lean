import NatsExplorer.History.MemStoreDrop
import NatsExplorer.History.MemStoreEvict
import NatsExplorer.Library.Transition

/-! Every run of the store: no sequence of appends and drops panics, and the
rings, the FIFO and the counters agree in every shard it reaches. -/
namespace NatsExplorer.History
open Go

namespace MemStore

inductive Op where
  | append (connID : Str) (rec : Record)
  | dropSubjects (rt : Runtime) (connID : Str) (subjects : List Str)
  | dropMatching (rt : Runtime) (connID subject : Str) (branch : Bool)
  | drop (rt : Runtime) (connID : Str)
  | clear

def step (s : MemStore) : Op → Except String MemStore
  | .append connID rec => s.append connID rec
  | .dropSubjects rt connID subjects => .ok (s.dropSubjects rt connID subjects)
  | .dropMatching rt connID subject branch => .ok (s.dropMatching rt connID subject branch).1
  | .drop rt connID => .ok (s.drop rt connID)
  | .clear => .ok s.clear

/-- A panic ends the run. -/
def next (s : Except String MemStore) (op : Op) : Except String MemStore :=
  match s with
  | .error panic => .error panic
  | .ok s => s.step op

def run (s : MemStore) (ops : List Op) : Except String MemStore :=
  Transition.run next (.ok s) ops

end MemStore

namespace Shard

/-- What a shard's bookkeeping says of the messages it holds. -/
structure Agrees (sh : Shard) : Prop where
  /-- No slot that is still to be given up is empty. -/
  slots : sh.fifo.drop sh.fifoHead = sh.waiting.map some
  /-- A ring holds the live entries of its subject, in the order of the FIFO. -/
  ring {c s h b} : sh.Holds c s h b →
    (sh.bufs b).toList = sh.live.filter fun e => (sh.entries e).buf = b
  /-- Every live entry is in the ring of its message's subject. -/
  home {e} : e ∈ sh.live → ∃ c r, (sh.entries e).record = some r ∧ (sh.entries e).size = r.bytes ∧
    sh.Holds c r.subject (sh.entries e).conn (sh.entries e).buf
  /-- The FIFO's oldest live entry is the oldest of its ring. -/
  oldest {e rest} : sh.live = e :: rest → (sh.bufs (sh.entries e).buf).toList.head? = some e
  bytes : sh.bytes = (sh.live.map sh.size).sum
  count : sh.count = sh.live.length
  connBytes {c h} : sh.conns.lookup c = some h →
    (sh.hists h).bytes = ((sh.live.filter fun e => (sh.entries e).conn = h).map sh.size).sum
  connCount {c h} : sh.conns.lookup c = some h →
    (sh.hists h).count = (sh.live.filter fun e => (sh.entries e).conn = h).length
  budget : sh.bytes ≤ sh.maxBytes
  cap {c s h b} : sh.Holds c s h b → (sh.bufs b).toList.length ≤ sh.maxPerSubject

theorem weigh_ofConn (sh : Shard) (h : Ref) (w : Ref → Int) (l : List Ref) :
    weigh (sh.ofConn h w) l = weigh w (l.filter fun e => (sh.entries e).conn = h) := by
  induction l with
  | nil => rfl
  | cons e l ih =>
    simp only [weigh] at ih
    by_cases here : (sh.entries e).conn = h
    · simp only [weigh, List.map_cons, List.sum_cons, ih, ofConn, here, ↓reduceIte, decide_true,
        List.filter_cons]
    · simp only [weigh, List.map_cons, List.sum_cons, ih, ofConn, here, ↓reduceIte, decide_false,
        List.filter_cons, zero_add, Bool.false_eq_true]

theorem Sound.agrees {sh : Shard} (sound : sh.Sound) : sh.Agrees where
  slots := sound.accounts.slots
  ring := sound.wiring.ring
  home := sound.wiring.home
  oldest {e rest} lives := by
    obtain ⟨c, r, _, _, held⟩ := sound.wiring.home (lives ▸ List.mem_cons_self : e ∈ sh.live)
    rw [sound.wiring.ring held, ringOf, lives, List.filter_cons, if_pos (decide_eq_true rfl)]
    rfl
  bytes := sound.accounts.bytes
  count := by rw [sound.accounts.count, weigh_one]
  connBytes {c h} found := by
    rw [sound.accounts.histBytes found, weigh_ofConn]
    rfl
  connCount {c h} found := by rw [sound.accounts.histCount found, weigh_ofConn, weigh_one]
  budget := sound.budget
  cap held := by
    rw [SubjectBuf.length_toList]
    exact sound.capped held

end Shard

namespace MemStore

/-- Every shard is sound and has the limits it was made with. -/
structure Kept (maxBytes maxPerSubject shards : Nat) (s : MemStore) : Prop where
  shards : s.shards.length = shards
  sound {sh} : sh ∈ s.shards → sh.Sound
  maxBytes {sh} : sh ∈ s.shards → sh.maxBytes = maxBytes
  maxPerSubject {sh} : sh ∈ s.shards → sh.maxPerSubject = maxPerSubject

variable {maxBytes maxPerSubject shards : Nat} {s : MemStore}

/-- An operation that works on each shard by itself. -/
theorem Kept.map (kept : s.Kept maxBytes maxPerSubject shards) (f : Shard → Shard)
    (each : ∀ sh, sh.Sound → (f sh).Sound ∧ (f sh).maxBytes = sh.maxBytes ∧
      (f sh).maxPerSubject = sh.maxPerSubject) :
    Kept maxBytes maxPerSubject shards { s with shards := s.shards.map f } where
  shards := (List.length_map _).trans kept.shards
  sound member := by
    obtain ⟨sh, old, rfl⟩ := List.mem_map.mp member
    exact (each sh (kept.sound old)).1
  maxBytes member := by
    obtain ⟨sh, old, rfl⟩ := List.mem_map.mp member
    exact (each sh (kept.sound old)).2.1.trans (kept.maxBytes old)
  maxPerSubject member := by
    obtain ⟨sh, old, rfl⟩ := List.mem_map.mp member
    exact (each sh (kept.sound old)).2.2.trans (kept.maxPerSubject old)

theorem shardOf_lt (some : 0 < s.shards.length) (subject : Str) (hash : Nat) :
    s.shardOf subject hash < s.shards.length := by
  unfold shardOf
  split
  · exact some
  · exact Nat.mod_lt _ some

theorem append_spec (kept : s.Kept maxBytes maxPerSubject shards) (some : 0 < shards)
    (connID : Str) (rec : Record) :
    ∃ s', s.append connID rec = .ok s' ∧ s'.Kept maxBytes maxPerSubject shards := by
  have inside := shardOf_lt (kept.shards.symm ▸ some) rec.subject rec.hash
  have listed := List.getElem_mem inside
  obtain ⟨sh', done, appended⟩ := Shard.append_spec (kept.sound listed) connID rec
  refine ⟨{ s with shards := s.shards.set (s.shardOf rec.subject rec.hash) sh' }, ?_, ?_⟩
  · simp only [append, List.getElem?_eq_getElem inside, done]
  · constructor
    · exact List.length_set.trans kept.shards
    · intro sh member
      rcases List.mem_or_eq_of_mem_set member with old | rfl
      · exact kept.sound old
      · exact appended.sound
    · intro sh member
      rcases List.mem_or_eq_of_mem_set member with old | rfl
      · exact kept.maxBytes old
      · exact appended.maxBytes.trans (kept.maxBytes listed)
    · intro sh member
      rcases List.mem_or_eq_of_mem_set member with old | rfl
      · exact kept.maxPerSubject old
      · exact appended.maxPerSubject.trans (kept.maxPerSubject listed)

theorem step_kept (kept : s.Kept maxBytes maxPerSubject shards) (some : 0 < shards) (op : Op) :
    ∃ s', s.step op = .ok s' ∧ s'.Kept maxBytes maxPerSubject shards := by
  cases op with
  | append connID rec => exact append_spec kept some connID rec
  | dropSubjects rt connID subjects =>
    refine ⟨_, rfl, ?_⟩
    unfold dropSubjects
    split
    · exact kept
    · exact kept.map _ fun sh sound => Shard.dropWhere_spec rt _ sound connID
  | dropMatching rt connID subject branch =>
    refine ⟨_, rfl, ?_⟩
    unfold dropMatching
    split
    · exact kept
    · simp only [List.map_map]
      exact kept.map _ fun sh sound => Shard.dropWhere_spec rt _ sound connID
  | drop rt connID =>
    exact ⟨_, rfl, kept.map _ fun sh sound => Shard.drop_spec rt sound connID⟩
  | clear =>
    exact ⟨_, rfl, kept.map _ fun sh _ => ⟨sh.clear_sound, rfl, rfl⟩⟩

theorem run_kept (kept : s.Kept maxBytes maxPerSubject shards) (some : 0 < shards) (ops : List Op) :
    ∃ s', s.run ops = .ok s' ∧ s'.Kept maxBytes maxPerSubject shards := by
  have preserves (r : Except String MemStore) (op : Op) :
      (∃ s', r = .ok s' ∧ s'.Kept maxBytes maxPerSubject shards) →
        ∃ s', next r op = .ok s' ∧ s'.Kept maxBytes maxPerSubject shards := by
    rintro ⟨s', rfl, kept'⟩
    exact step_kept kept' some op
  exact Transition.always preserves ⟨s, rfl, kept⟩

/-- The number of shards and the limits of each, defaults filled in. -/
def limits (maxBytes maxPerSubject shards : Int) : Nat × Nat × Nat :=
  let shards := if shards ≤ 0 then 1 else shards.toNat
  ((if maxBytes ≤ 0 then defaultMaxBytes else maxBytes.toNat) / shards,
    if maxPerSubject ≤ 0 then defaultMaxPerSubject else maxPerSubject.toNat, shards)

theorem newMemStoreShards_kept (hash : Str → Nat) (maxBytes maxPerSubject shards : Int) :
    (newMemStoreShards hash maxBytes maxPerSubject shards).Kept
      (limits maxBytes maxPerSubject shards).1 (limits maxBytes maxPerSubject shards).2.1
      (limits maxBytes maxPerSubject shards).2.2 where
  shards := List.length_replicate
  sound member := by
    rw [List.eq_of_mem_replicate member]
    exact Shard.newShard_sound _ _
  maxBytes member := by rw [List.eq_of_mem_replicate member]; rfl
  maxPerSubject member := by rw [List.eq_of_mem_replicate member]; rfl

theorem limits_shards (maxBytes maxPerSubject shards : Int) :
    0 < (limits maxBytes maxPerSubject shards).2.2 := by
  simp only [limits]
  split <;> omega

/-- No sequence of operations panics, and every shard it reaches agrees with
itself and keeps within its limits. -/
theorem run_agrees (hash : Str → Nat) (maxBytes maxPerSubject shards : Int) (ops : List Op) :
    ∃ s, (newMemStoreShards hash maxBytes maxPerSubject shards).run ops = .ok s ∧
      ∀ sh ∈ s.shards, sh.Agrees ∧ sh.maxBytes = (limits maxBytes maxPerSubject shards).1 ∧
        sh.maxPerSubject = (limits maxBytes maxPerSubject shards).2.1 := by
  obtain ⟨s, done, kept⟩ := run_kept (newMemStoreShards_kept hash maxBytes maxPerSubject shards)
    (limits_shards maxBytes maxPerSubject shards) ops
  exact ⟨s, done, fun sh member =>
    ⟨(kept.sound member).agrees, kept.maxBytes member, kept.maxPerSubject member⟩⟩

end MemStore
end NatsExplorer.History
