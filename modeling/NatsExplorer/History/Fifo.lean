import NatsExplorer.History.MemStoreSound
import Mathlib.Algebra.Order.BigOperators.Group.List

/-! How long a shard's FIFO gets. What the byte budget evicts leaves it; what the
cap of a subject or a drop kills stays, and only a shard above its budget moves
the head past it. So the FIFO is bounded where few such entries pile up, and
grows without bound where a subject stays at its cap. -/
namespace NatsExplorer.History
open Go

namespace Shard
variable {sh sh' : Shard} {e b h : Ref} {c s : Str}

/-- The number of messages a drop finds in the store. -/
def recorded (sh : Shard) (matching : Str → Bool) (connID : Str) : Nat :=
  match sh.conns.lookup connID with
  | none => 0
  | some h => (((sh.hists h).subjects.entries.filter fun p => matching p.fst).map fun p =>
      (sh.bufs p.snd).n).sum

theorem cut_dead (sound : sh.Sound) (held : sh.Holds c s h b) :
    (sh.cut h ⟨s, b⟩).dead.length ≤ sh.dead.length + (sh.bufs b).n ∧
      (sh.cut h ⟨s, b⟩).bufs = sh.bufs ∧ (sh.cut h ⟨s, b⟩).fifo = sh.fifo := by
  have waits := ring_waits sound held
  obtain ⟨spared, _, _⟩ := killed_spec sound.accounts waits
  have more := dead_killed sound.accounts waits
  rw [SubjectBuf.length_toList] at more
  exact ⟨more, spared.bufs, spared.fifo⟩

theorem cuts_dead {going : List ((_ : Str) × Ref)} (sound : sh.Sound)
    (distinct : (going.map (·.fst)).Nodup) (held : ∀ p ∈ going, sh.Holds c p.fst h p.snd) :
    (going.foldl (cut h) sh).dead.length ≤
        sh.dead.length + (going.map fun p => (sh.bufs p.snd).n).sum ∧
      (going.foldl (cut h) sh).fifo = sh.fifo := by
  induction going generalizing sh with
  | nil => exact ⟨le_rfl, rfl⟩
  | cons p going ih =>
    obtain ⟨absent, distinct⟩ := List.nodup_cons.mp distinct
    obtain ⟨sound', _, others, _⟩ := cut_spec sound (held p List.mem_cons_self)
    obtain ⟨dead, bufs, fifo⟩ := cut_dead sound (held p List.mem_cons_self)
    have rest : ∀ q ∈ going, (sh.cut h p).Holds c q.fst h q.snd := by
      intro q member
      apply others
      · intro same
        exact absent (List.mem_map.mpr ⟨q, member, same⟩)
      · exact held q (List.mem_cons_of_mem _ member)
    obtain ⟨dead', fifo'⟩ := ih sound' distinct rest
    rw [bufs] at dead'
    refine ⟨dead'.trans ?_, fifo'.trans fifo⟩
    rw [List.map_cons, List.sum_cons]
    omega

theorem dropWhere_dead (rt : Runtime) (matching : Str → Bool) (sound : sh.Sound) (connID : Str) :
    (sh.dropWhere rt matching connID).1.dead.length ≤
        sh.dead.length + sh.recorded matching connID ∧
      (sh.dropWhere rt matching connID).1.fifo = sh.fifo := by
  simp only [dropWhere, recorded]
  cases known : sh.conns.lookup connID with
  | none => exact ⟨Nat.le_add_right .., rfl⟩
  | some h =>
    simp only
    have order := (rt.range_perm (sh.hists h).subjects.entries).filter fun p => matching p.fst
    have distinct := going_distinct rt matching (sh.hists h)
    have held : ∀ p ∈ (rt.range (sh.hists h).subjects.entries).filter (fun p => matching p.fst),
        sh.Holds connID p.fst h p.snd := going_held rt matching known
    obtain ⟨dead, fifo⟩ := cuts_dead sound distinct held
    rw [(order.map _).sum_eq] at dead
    split
    · exact ⟨dead, fifo⟩
    · exact ⟨dead, fifo⟩

theorem drop_dead (rt : Runtime) (sound : sh.Sound) (connID : Str) :
    (sh.drop rt connID).dead.length ≤ sh.dead.length + sh.recorded (fun _ => true) connID ∧
      (sh.drop rt connID).fifo = sh.fifo := by
  simp only [drop, recorded]
  cases known : sh.conns.lookup connID with
  | none => exact ⟨Nat.le_add_right .., rfl⟩
  | some h =>
    simp only [killAll_eq]
    have waits := rings_wait rt sound known
    have more := dead_killed sound.accounts waits
    obtain ⟨spared, _, _⟩ := killed_spec sound.accounts waits
    have length : (((rt.range (sh.hists h).subjects.values).flatMap fun b =>
        (sh.bufs b).toList)).length = (((sh.hists h).subjects.entries.filter fun _ => true).map
          fun p => (sh.bufs p.snd).n).sum := by
      rw [List.length_flatMap, ((rt.range_perm _).map _).sum_eq, List.filter_true, Map.values,
        List.map_map]
      refine congrArg List.sum (List.map_congr_left fun p _ => ?_)
      exact SubjectBuf.length_toList _
    rw [length] at more
    exact ⟨more, spared.fifo⟩

/-- The budget leaves room for few live entries only. -/
theorem live_le (sound : sh.Sound) : sh.live.length ≤ sh.maxBytes / 320 := by
  have each : weigh (fun _ => 320) sh.live ≤ weigh sh.size sh.live := by
    apply List.sum_le_sum
    intro e alive
    obtain ⟨_, r, _, size, _⟩ := sound.wiring.home alive
    have := r.bytes_ge
    rw [Shard.size, size]
    omega
  have total : weigh (fun _ => 320) sh.live = 320 * sh.live.length := by
    simp [weigh, mul_comm]
  have budget := sound.budget
  rw [sound.accounts.bytes] at budget
  omega

end Shard

namespace MemStore

/-- The longest FIFO of a shard with a budget, when at most `slack` dead entries
wait in it. -/
def fifoBound (maxBytes slack : Nat) : Nat := 4096 + 2 * (maxBytes / 320 + slack)

/-- A step that leaves at most `slack` dead entries in the FIFOs; with none
allowed, nothing is killed but for the byte budget. -/
def Spares (slack : Nat) (s : MemStore) : Op → Prop
  | .append connID rec => ∀ sh, s.shards[s.shardOf rec.subject rec.hash]? = some sh →
      sh.maxPerSubject ≤ sh.ringLength connID rec.subject → sh.dead.length < slack
  | .dropSubjects _ connID subjects => ∀ sh ∈ s.shards,
      sh.dead.length + sh.recorded (fun subject => subject ∈ subjects) connID ≤ slack
  | .dropMatching _ connID subject branch => subject ≠ [] → ∀ sh ∈ s.shards,
      sh.dead.length + sh.recorded (fun subj => subj = subject ||
        (branch && strings.hasPrefix subj (subject ++ ['.']))) connID ≤ slack
  | .drop _ connID => ∀ sh ∈ s.shards, sh.dead.length + sh.recorded (fun _ => true) connID ≤ slack
  | .clear => True

structure Roomy (slack : Nat) (sh : Shard) : Prop where
  dead : sh.dead.length ≤ slack
  fifo : sh.fifo.length ≤ fifoBound sh.maxBytes slack

variable {slack maxBytes maxPerSubject shards : Nat} {s : MemStore}

theorem Roomy.map {f : Shard → Shard} (kept : s.Kept maxBytes maxPerSubject shards)
    (roomy : ∀ sh ∈ s.shards, Roomy slack sh)
    (each : ∀ sh ∈ s.shards, sh.Sound → (f sh).dead.length ≤ slack ∧
      (f sh).fifo.length ≤ sh.fifo.length ∧ (f sh).maxBytes = sh.maxBytes) :
    ∀ sh ∈ s.shards.map f, Roomy slack sh := by
  intro sh' member
  obtain ⟨sh, old, rfl⟩ := List.mem_map.mp member
  obtain ⟨dead, fifo, same⟩ := each sh old (kept.sound old)
  refine ⟨dead, fifo.trans ?_⟩
  rw [same]
  exact (roomy sh old).fifo

theorem append_roomy (kept : s.Kept maxBytes maxPerSubject shards) (some : 0 < shards)
    (roomy : ∀ sh ∈ s.shards, Roomy slack sh) {connID : Str} {rec : Record}
    (spares : s.Spares slack (.append connID rec)) {s' : MemStore}
    (done : s.append connID rec = .ok s') : ∀ sh ∈ s'.shards, Roomy slack sh := by
  have inside := shardOf_lt (kept.shards.symm ▸ some) rec.subject rec.hash
  have listed := List.getElem_mem inside
  obtain ⟨sh', appended, left⟩ := Shard.append_spec (kept.sound listed) connID rec
  simp only [append, List.getElem?_eq_getElem inside, appended, Except.ok.injEq] at done
  subst done
  intro sh member
  rcases List.mem_or_eq_of_mem_set member with old | rfl
  · exact roomy sh old
  have before := (roomy _ listed).dead
  have dead : sh.dead.length ≤ slack := by
    apply left.dead.trans
    split
    · rename_i full
      exact spares _ (List.getElem?_eq_getElem inside) full
    · exact before
  refine ⟨dead, left.fifo.trans ?_⟩
  have live := Shard.live_le left.sound
  have waiting := sh.length_waiting
  unfold fifoBound
  omega

theorem step_roomy (kept : s.Kept maxBytes maxPerSubject shards) (some : 0 < shards)
    (roomy : ∀ sh ∈ s.shards, Roomy slack sh) (op : Op) (spares : s.Spares slack op) {s' : MemStore}
    (done : s.step op = .ok s') : ∀ sh ∈ s'.shards, Roomy slack sh := by
  cases op with
  | append connID rec => exact append_roomy kept some roomy spares done
  | dropSubjects rt connID subjects =>
    simp only [step, dropSubjects, Except.ok.injEq] at done
    subst done
    split
    · exact roomy
    · apply Roomy.map kept roomy
      intro sh member sound
      obtain ⟨dead, fifo⟩ := Shard.dropWhere_dead rt (fun subject => subject ∈ subjects) sound connID
      obtain ⟨_, same, _⟩ := Shard.dropWhere_spec rt (fun subject => subject ∈ subjects) sound connID
      exact ⟨dead.trans (spares sh member), (congrArg _ fifo).le, same⟩
  | dropMatching rt connID subject branch =>
    simp only [step, dropMatching, Except.ok.injEq] at done
    subst done
    split
    · exact roomy
    · rename_i named
      simp only [List.map_map]
      apply Roomy.map kept roomy
      intro sh member sound
      obtain ⟨dead, fifo⟩ := Shard.dropWhere_dead rt (fun subj => subj = subject ||
        (branch && strings.hasPrefix subj (subject ++ ['.']))) sound connID
      obtain ⟨_, same, _⟩ := Shard.dropWhere_spec rt (fun subj => subj = subject ||
        (branch && strings.hasPrefix subj (subject ++ ['.']))) sound connID
      exact ⟨dead.trans (spares named sh member), (congrArg _ fifo).le, same⟩
  | drop rt connID =>
    simp only [step, drop, Except.ok.injEq] at done
    subst done
    apply Roomy.map kept roomy
    intro sh member sound
    obtain ⟨dead, fifo⟩ := Shard.drop_dead rt sound connID
    obtain ⟨_, same, _⟩ := Shard.drop_spec rt sound connID
    exact ⟨dead.trans (spares sh member), (congrArg _ fifo).le, same⟩
  | clear =>
    simp only [step, clear, Except.ok.injEq] at done
    subst done
    apply Roomy.map kept roomy
    intro sh _ _
    exact ⟨Nat.zero_le _, Nat.zero_le _, rfl⟩

/-- The steps of a run meet a condition on the store they find. -/
def Meets (ok : MemStore → Op → Prop) (s : Except String MemStore) (op : Op) : Prop :=
  ∀ m, s = .ok m → ok m op

end MemStore

namespace Shard
variable {sh : Shard} {e b h : Ref} {c : Str}

/-- A subject with one message, all there is in a shard that keeps one of each. -/
structure Single (sh : Shard) (c : Str) (rec : Record) : Prop where
  sound : sh.Sound
  one : sh.maxPerSubject = 1
  head : sh.fifoHead = 0
  bytes : sh.bytes = rec.bytes
  ring : ∃ h b e, sh.Holds c rec.subject h b ∧ (sh.bufs b).toList = [e] ∧
    (sh.entries e).size = rec.bytes

theorem evict_idle (fuel : Nat) (within : sh.bytes ≤ sh.maxBytes) : sh.evict fuel = .ok sh := by
  cases fuel with
  | zero => rfl
  | succ fuel => exact if_neg fun go => Int.not_lt.mpr within go.1

/-- The next message of that subject kills the one before it, which stays in the FIFO. -/
theorem single_append {rec : Record} (single : sh.Single c rec) (room : rec.bytes ≤ sh.maxBytes) :
    ∃ sh', sh.append c rec = .ok sh' ∧ sh'.Single c rec ∧ sh'.maxBytes = sh.maxBytes ∧
      sh'.fifo.length = sh.fifo.length + 1 := by
  obtain ⟨h, b, e, held, ring, size⟩ := single.ring
  obtain ⟨accounts, wiring⟩ := And.intro single.sound.accounts single.sound.wiring
  have onRing : e ∈ sh.ringOf b := by
    rw [← wiring.ring held, ring]
    exact List.mem_cons_self
  have alive := (mem_ringOf.mp onRing).1
  have below := wiring.fresh (mem_live.mp alive).1
  have old := enter_entry h b rec below
  have longer : ((sh.enter h b rec).bufs b).toList = [e, sh.next] := by
    simp only [enter, setBuf, Function.update_self, SubjectBuf.toList_push, ring,
      List.singleton_append]
  obtain ⟨buf, popped, left⟩ := SubjectBuf.popHead_spec longer
  have opened : sh.connOf c = (sh, h) ∧ sh.bufOf h rec.subject = (sh, b) := by
    simp only [connOf, held.conn, bufOf, held.ring, and_self]
  have capped : (sh.enter h b rec).cap b = .ok (((sh.enter h b rec).setBuf b buf).kill e) := by
    have two := SubjectBuf.n_eq longer
    have one : (sh.enter h b rec).maxPerSubject = 1 := single.one
    have full : (sh.enter h b rec).maxPerSubject < ((sh.enter h b rec).bufs b).n := by
      rw [one, two]
      exact Nat.one_lt_two
    rw [cap, if_pos full, popped]
  have spared := ((sh.enter h b rec).setBuf b buf).kill_spared e
  have bytes : (((sh.enter h b rec).setBuf b buf).kill e).bytes = rec.bytes := by
    have breathing : (((sh.enter h b rec).setBuf b buf).entries e).dead = false := by
      change ((sh.enter h b rec).entries e).dead = false
      rw [old]
      exact (mem_live.mp alive).2
    have same : (((sh.enter h b rec).setBuf b buf).entries e).size = rec.bytes := by
      change ((sh.enter h b rec).entries e).size = rec.bytes
      rw [old, size]
    simp only [kill, breathing, Bool.false_eq_true, ↓reduceIte]
    rw [same]
    change sh.bytes + (rec.bytes : Int) - rec.bytes = rec.bytes
    rw [single.bytes]
    omega
  have head : (((sh.enter h b rec).setBuf b buf).kill e).fifoHead = 0 :=
    spared.fifoHead.trans single.head
  have done : sh.append c rec = .ok (((sh.enter h b rec).setBuf b buf).kill e) := by
    have within : (((sh.enter h b rec).setBuf b buf).kill e).bytes ≤
        (((sh.enter h b rec).setBuf b buf).kill e).maxBytes := by
      rw [bytes, spared.maxBytes]
      exact Int.ofNat_le.mpr room
    simp only [append, opened, capped, evict_idle _ within]
    rw [compact, if_neg (by omega)]
  obtain ⟨sh', done', appended⟩ := append_spec single.sound c rec
  rw [done, Except.ok.injEq] at done'
  subst done'
  refine ⟨_, done, ⟨appended.sound, appended.maxPerSubject.trans single.one, head, bytes,
    h, b, sh.next, ?_, ?_, ?_⟩, appended.maxBytes, ?_⟩
  · have entered := (enter_holds sh h b rec).mpr held
    exact spared.holds.mpr ⟨entered.conn, entered.ring⟩
  · rw [spared.bufs]
    simp only [setBuf, Function.update_self]
    exact left
  · rw [(spared.fixed _).1]
    simp only [setBuf, enter, Function.update_self]
  · rw [spared.fifo]
    simp only [setBuf, enter, List.length_append, List.length_singleton]

end Shard

namespace MemStore

def sample : Record where
  subject := ['a']
  data := .text ['1']
  timestamp := 1
  sequence := 1

theorem run_samples (n : Nat) :
    ∃ sh, (newMemStoreShards (fun _ => 0) 1000 1 1).run
        (List.replicate (n + 1) (.append ['c'] sample)) = .ok ⟨[sh], fun _ => 0⟩ ∧
      sh.Single ['c'] sample ∧ sh.maxBytes = 1000 ∧ sh.fifo.length = n + 1 := by
  induction n with
  | zero =>
    obtain ⟨sh, done, appended⟩ :=
      Shard.append_spec (Shard.newShard_sound 1000 1) ['c'] sample
    have first : (Shard.newShard 1000 1).append ['c'] sample = .ok _ := rfl
    rw [first, Except.ok.injEq] at done
    subst done
    exact ⟨_, rfl, ⟨appended.sound, rfl, rfl, rfl, 0, 1, 2, ⟨rfl, rfl⟩, rfl, rfl⟩, rfl, rfl⟩
  | succ n ih =>
    obtain ⟨sh, done, single, room, length⟩ := ih
    obtain ⟨sh', appended, single', same, longer⟩ := Shard.single_append single (by
      rw [room]
      decide)
    refine ⟨sh', ?_, single', same.trans room, by omega⟩
    rw [List.replicate_succ', run, Transition.run_append]
    rw [run] at done
    rw [done]
    simp only [Transition.run, List.foldl_cons, List.foldl_nil, next, step, append, shardOf]
    simp only [List.length_singleton, ↓reduceIte, List.getElem?_cons_zero, appended, List.set_cons_zero]

end MemStore
end NatsExplorer.History
