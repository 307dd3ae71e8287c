import NatsExplorer.History.MemStoreInvariant

/-! `Append` brings in a new entry: it goes to the end of its ring and of the
FIFO, and the cap takes the head of its ring. -/
namespace NatsExplorer.History
open Go
namespace Shard
variable {sh sh' : Shard} {e b h : Ref} {c s : Str}

theorem Wiring.bufBelow (wiring : sh.Wiring) (alive : e ∈ sh.live) :
    (sh.entries e).buf < sh.next ∧ (sh.entries e).conn < sh.next := by
  obtain ⟨c, r, _, _, held⟩ := wiring.home alive
  exact ⟨wiring.freshBuf held, wiring.freshHist held.conn⟩

theorem connOf_spec (accounts : sh.Accounts) (wiring : sh.Wiring) (capped : sh.Capped) (c : Str) :
    (sh.connOf c).1.Accounts ∧ (sh.connOf c).1.Wiring ∧ (sh.connOf c).1.Capped ∧
      (sh.connOf c).1.conns.lookup c = some (sh.connOf c).2 ∧
      (sh.connOf c).1.maxBytes = sh.maxBytes ∧ (sh.connOf c).1.maxPerSubject = sh.maxPerSubject := by
  simp only [connOf]
  cases known : sh.conns.lookup c with
  | some h => exact ⟨accounts, wiring, capped, known, rfl, rfl⟩
  | none =>
    have lookup {c' h'} : (sh.conns.insert c sh.next).lookup c' = some h' →
        (c' = c ∧ h' = sh.next) ∨ (c' ≠ c ∧ sh.conns.lookup c' = some h' ∧ h' ≠ sh.next) := by
      intro found
      by_cases same : c' = c
      · subst same
        rw [AList.lookup_insert, Option.some.injEq] at found
        exact Or.inl ⟨rfl, found.symm⟩
      · rw [AList.lookup_insert_ne same] at found
        exact Or.inr ⟨same, found, (wiring.freshHist found).ne⟩
    -- The new connection has no subjects yet, so what is held was held before.
    have holds {c' s' h' b'} : Holds { sh with
        hists := Function.update sh.hists sh.next { subjects := ∅, count := 0, bytes := 0 }
        conns := sh.conns.insert c sh.next
        next := sh.next + 1 } c' s' h' b' → sh.Holds c' s' h' b' := by
      intro ⟨conn, ring⟩
      rcases lookup conn with ⟨rfl, rfl⟩ | ⟨_, old, other⟩
      · simp only [Function.update_self, AList.lookup_empty] at ring
        cases ring
      · simp only [Function.update_of_ne other] at ring
        exact ⟨old, ring⟩
    have stays {c' s' h' b'} (held : sh.Holds c' s' h' b') : Holds { sh with
        hists := Function.update sh.hists sh.next { subjects := ∅, count := 0, bytes := 0 }
        conns := sh.conns.insert c sh.next
        next := sh.next + 1 } c' s' h' b' := by
      have other : c' ≠ c := by
        intro same
        rw [same] at held
        rw [held.conn] at known
        cases known
      constructor
      · exact (AList.lookup_insert_ne other).trans held.conn
      · simp only [Function.update_of_ne (wiring.freshHist held.conn).ne]
        exact held.ring
    have nobody (w : Ref → Int) : weigh (sh.ofConn sh.next w) sh.live = 0 := by
      apply weigh_zero
      intro e alive
      exact if_neg (wiring.bufBelow alive).2.ne
    refine ⟨{ accounts with histBytes := ?_, histCount := ?_ }, ?_, fun held => capped (holds held),
      AList.lookup_insert _, rfl, rfl⟩
    · intro c' h' found
      rcases lookup found with ⟨_, rfl⟩ | ⟨_, old, other⟩
      · simp only [Function.update_self]
        exact (nobody _).symm
      · simp only [Function.update_of_ne other]
        exact accounts.histBytes old
    · intro c' h' found
      rcases lookup found with ⟨_, rfl⟩ | ⟨_, old, other⟩
      · simp only [Function.update_self]
        exact (nobody _).symm
      · simp only [Function.update_of_ne other]
        exact accounts.histCount old
    · constructor
      · exact fun waits => (wiring.fresh waits).trans (Nat.lt_succ_self _)
      · intro c' h' found
        rcases lookup found with ⟨_, rfl⟩ | ⟨_, old, _⟩
        · exact Nat.lt_succ_self _
        · exact (wiring.freshHist old).trans (Nat.lt_succ_self _)
      · exact fun held => (wiring.freshBuf (holds held)).trans (Nat.lt_succ_self _)
      · intro c' c'' h' first second
        rcases lookup first with ⟨rfl, rfl⟩ | ⟨_, old, other⟩
        · rcases lookup second with ⟨rfl, _⟩ | ⟨_, _, other⟩
          · rfl
          · exact absurd rfl other
        · rcases lookup second with ⟨rfl, same⟩ | ⟨_, old', _⟩
          · exact absurd same other
          · exact wiring.oneHist old old'
      · exact fun first second => wiring.oneBuf (holds first) (holds second)
      · exact fun held => wiring.ring (holds held)
      · intro e alive
        obtain ⟨c', r, record, size, held⟩ := wiring.home alive
        exact ⟨c', r, record, size, stays held⟩

theorem bufOf_spec (accounts : sh.Accounts) (wiring : sh.Wiring) (capped : sh.Capped)
    (known : sh.conns.lookup c = some h) (s : Str) :
    (sh.bufOf h s).1.Accounts ∧ (sh.bufOf h s).1.Wiring ∧ (sh.bufOf h s).1.Capped ∧
      (sh.bufOf h s).1.Holds c s h (sh.bufOf h s).2 ∧
      (sh.bufOf h s).1.maxBytes = sh.maxBytes ∧ (sh.bufOf h s).1.maxPerSubject = sh.maxPerSubject := by
  simp only [bufOf]
  cases ring : (sh.hists h).subjects.lookup s with
  | some b => exact ⟨accounts, wiring, capped, ⟨known, ring⟩, rfl, rfl⟩
  | none =>
    generalize new : ({ sh with
      bufs := Function.update sh.bufs sh.next .empty
      hists := Function.update sh.hists h
        { sh.hists h with subjects := (sh.hists h).subjects.insert s sh.next }
      next := sh.next + 1 } : Shard) = sh'
    have hists (h' : Ref) : (sh'.hists h').bytes = (sh.hists h').bytes ∧
        (sh'.hists h').count = (sh.hists h').count := by
      subst new
      simp only [Function.update_apply]
      split
      · rename_i same
        rw [same]
        exact ⟨rfl, rfl⟩
      · exact ⟨rfl, rfl⟩
    have holds {c' s' h' b'} (held : sh'.Holds c' s' h' b') :
        (h' = h ∧ s' = s ∧ b' = sh.next) ∨ sh.Holds c' s' h' b' := by
      subst new
      obtain ⟨conn, held⟩ := held
      by_cases here : h' = h
      · subst here
        simp only [Function.update_self] at held
        by_cases same : s' = s
        · subst same
          rw [AList.lookup_insert, Option.some.injEq] at held
          exact Or.inl ⟨rfl, rfl, held.symm⟩
        · rw [AList.lookup_insert_ne same] at held
          exact Or.inr ⟨conn, held⟩
      · simp only [Function.update_of_ne here] at held
        exact Or.inr ⟨conn, held⟩
    have stays {c' s' h' b'} (held : sh.Holds c' s' h' b') : sh'.Holds c' s' h' b' := by
      subst new
      refine ⟨held.conn, ?_⟩
      by_cases here : h' = h
      · subst here
        simp only [Function.update_self]
        by_cases same : s' = s
        · subst same
          rw [held.ring] at ring
          cases ring
        · exact (AList.lookup_insert_ne same).trans held.ring
      · simp only [Function.update_of_ne here]
        exact held.ring
    have old {b' : Ref} (below : b' < sh.next) : sh'.bufs b' = sh.bufs b' := by
      subst new
      exact Function.update_of_ne below.ne _ _
    have fresh : sh'.bufs sh.next = .empty := by
      subst new
      exact Function.update_self ..
    have unused : sh.ringOf sh.next = [] := by
      apply List.filter_eq_nil_iff.mpr
      intro e alive
      simp only [decide_eq_true_eq]
      exact (wiring.bufBelow alive).1.ne
    have next : sh'.next = sh.next + 1 := by
      subst new
      rfl
    have conns : sh'.conns = sh.conns := by
      subst new
      rfl
    have lives : sh'.live = sh.live ∧ sh'.waiting = sh.waiting ∧ sh'.ringOf = sh.ringOf := by
      subst new
      exact ⟨rfl, rfl, rfl⟩
    have entries : sh'.entries = sh.entries := by
      subst new
      rfl
    refine ⟨?_, ?_, ?_, ⟨conns.symm ▸ known, ?_⟩, ?_, ?_⟩
    · have quiet : ({ sh with
          bufs := sh'.bufs
          hists := sh'.hists
          next := sh'.next } : Shard).Accounts :=
        { accounts with
          histBytes := fun found => (hists _).1.trans (accounts.histBytes found)
          histCount := fun found => (hists _).2.trans (accounts.histCount found) }
      subst new
      exact quiet
    · constructor
      · intro e waits
        rw [next]
        exact (wiring.fresh (lives.2.1 ▸ waits)).trans (Nat.lt_succ_self _)
      · intro c' h' found
        rw [next]
        exact (wiring.freshHist (conns ▸ found)).trans (Nat.lt_succ_self _)
      · intro c' s' h' b' held
        rw [next]
        rcases holds held with ⟨_, _, rfl⟩ | before
        · exact Nat.lt_succ_self _
        · exact (wiring.freshBuf before).trans (Nat.lt_succ_self _)
      · rw [conns]
        exact wiring.oneHist
      · intro c' c'' s' s'' h' h'' b' first second
        rcases holds first with ⟨rfl, rfl, rfl⟩ | before
        · rcases holds second with ⟨rfl, rfl, _⟩ | before'
          · exact ⟨rfl, rfl⟩
          · exact absurd rfl (wiring.freshBuf before').ne
        · rcases holds second with ⟨rfl, rfl, rfl⟩ | before'
          · exact absurd rfl (wiring.freshBuf before).ne
          · exact wiring.oneBuf before before'
      · intro c' s' h' b' held
        rw [lives.2.2]
        rcases holds held with ⟨_, _, rfl⟩ | before
        · rw [fresh, unused]
          rfl
        · rw [old (wiring.freshBuf before)]
          exact wiring.ring before
      · intro e alive
        obtain ⟨c', r, record, size, held⟩ := wiring.home (lives.1 ▸ alive)
        rw [entries]
        exact ⟨c', r, record, size, stays held⟩
    · intro c' s' h' b' held
      have same : sh'.maxPerSubject = sh.maxPerSubject := by
        subst new
        rfl
      rw [same]
      rcases holds held with ⟨_, _, rfl⟩ | before
      · rw [fresh]
        exact Nat.zero_le _
      · rw [old (wiring.freshBuf before)]
        exact capped before
    · subst new
      simp only [Function.update_self]
      exact AList.lookup_insert _
    · subst new
      rfl
    · subst new
      rfl

/-- How many messages the store holds of a subject. -/
def ringLength (sh : Shard) (connID subject : Str) : Nat :=
  match sh.conns.lookup connID with
  | none => 0
  | some h =>
    match (sh.hists h).subjects.lookup subject with
    | none => 0
    | some b => (sh.bufs b).n

/-- Finding or making the ring of a subject moves no message. -/
theorem opened_spec (sh : Shard) (c s : Str) :
    let opened := (sh.connOf c).1.bufOf (sh.connOf c).2 s
    (opened.1.bufs opened.2).n = sh.ringLength c s ∧ opened.1.dead = sh.dead := by
  simp only [connOf, ringLength]
  cases sh.conns.lookup c with
  | none =>
    simp only [bufOf, Function.update_self, AList.lookup_empty]
    exact ⟨rfl, rfl⟩
  | some h =>
    simp only [bufOf]
    cases (sh.hists h).subjects.lookup s with
    | none =>
      simp only [Function.update_self]
      exact ⟨rfl, rfl⟩
    | some b => exact ⟨rfl, rfl⟩

theorem enter_waiting (accounts : sh.Accounts) (h b : Ref) (rec : Record) :
    (sh.enter h b rec).waiting = sh.waiting ++ [sh.next] := by
  simp only [waiting, enter, setBuf, List.drop_append_of_le_length accounts.head,
    List.filterMap_append, List.filterMap_cons, List.filterMap_nil, id_eq]

theorem enter_live (accounts : sh.Accounts) (wiring : sh.Wiring) (h b : Ref) (rec : Record) :
    (sh.enter h b rec).live = sh.live ++ [sh.next] := by
  rw [live, enter_waiting accounts, List.filter_append, live]
  congr 1
  · apply List.filter_congr
    intro e waits
    simp only [enter, Function.update_of_ne (wiring.fresh waits).ne]
  · simp only [enter, Function.update_self, Bool.not_false, List.filter_cons_of_pos,
      List.filter_nil]

theorem enter_holds (sh : Shard) (h b : Ref) (rec : Record) {c s h' b'} :
    (sh.enter h b rec).Holds c s h' b' ↔ sh.Holds c s h' b' := by
  have subjects : ((sh.enter h b rec).hists h').subjects = (sh.hists h').subjects := by
    simp only [enter, Function.update_apply]
    split
    · rename_i same
      rw [same]
    · rfl
  constructor
  · intro held
    exact ⟨held.conn, subjects ▸ held.ring⟩
  · intro held
    exact ⟨held.conn, subjects.symm ▸ held.ring⟩

theorem enter_dead (accounts : sh.Accounts) (wiring : sh.Wiring) (h b : Ref) (rec : Record) :
    (sh.enter h b rec).dead.length = sh.dead.length := by
  have before := sh.length_waiting
  have after := (sh.enter h b rec).length_waiting
  rw [enter_waiting accounts, enter_live accounts wiring, List.length_append,
    List.length_append] at after
  omega

/-- The old entries are as they were when the new one comes in. -/
theorem enter_entry (h b : Ref) (rec : Record) (below : e < sh.next) :
    (sh.enter h b rec).entries e = sh.entries e := by
  simp only [enter, Function.update_of_ne below.ne]

theorem enter_weigh {w w' : Ref → Int} {h b : Ref} {rec : Record} (accounts : sh.Accounts)
    (wiring : sh.Wiring) (old : ∀ e < sh.next, w' e = w e) :
    weigh w' (sh.enter h b rec).live = weigh w sh.live + w' sh.next := by
  rw [enter_live accounts wiring, weigh_append, weigh_congr fun e alive =>
    old e (wiring.fresh (mem_live.mp alive).1)]
  simp only [weigh, List.map_cons, List.map_nil, List.sum_cons, List.sum_nil, add_zero]

theorem enter_accounts {rec : Record} (accounts : sh.Accounts) (wiring : sh.Wiring) :
    (sh.enter h b rec).Accounts := by
  have size : ∀ e < sh.next, (sh.enter h b rec).size e = sh.size e := by
    intro e below
    rw [Shard.size, enter_entry h b rec below, Shard.size]
  have ofConn {w w' : Ref → Int} (h' : Ref) (old : ∀ e < sh.next, w' e = w e) :
      ∀ e < sh.next, (sh.enter h b rec).ofConn h' w' e = sh.ofConn h' w e := by
    intro e below
    rw [Shard.ofConn, enter_entry h b rec below, old e below, Shard.ofConn]
  have newConn : ((sh.enter h b rec).entries sh.next).conn = h := by
    simp only [enter, Function.update_self]
  have newSize : (sh.enter h b rec).size sh.next = rec.bytes := by
    simp only [Shard.size, enter, Function.update_self]
  constructor
  · simp only [enter, setBuf, List.length_append]
    exact accounts.head.trans (Nat.le_add_right ..)
  · rw [enter_waiting accounts]
    simp only [enter, setBuf, List.drop_append_of_le_length accounts.head, List.map_append,
      List.map_cons, List.map_nil]
    rw [accounts.slots]
  · rw [enter_waiting accounts]
    apply List.nodup_append.mpr
    refine ⟨accounts.nodup, List.nodup_singleton _, ?_⟩
    intro e waits e' new same
    rw [List.mem_singleton.mp new] at same
    exact (wiring.fresh waits).ne same
  · rw [enter_weigh accounts wiring size, newSize, ← accounts.bytes]
    rfl
  · rw [enter_weigh accounts wiring fun _ _ => rfl, ← accounts.count]
    rfl
  · intro c h' found
    rw [enter_weigh accounts wiring (ofConn h' size), ← accounts.histBytes found, Shard.ofConn,
      newConn, newSize]
    simp only [enter, Function.update_apply, eq_comm (a := h')]
    split
    · rename_i same
      rw [same]
    · omega
  · intro c h' found
    rw [enter_weigh accounts wiring (ofConn h' fun _ _ => rfl), ← accounts.histCount found,
      Shard.ofConn, newConn]
    simp only [enter, Function.update_apply, eq_comm (a := h')]
    split
    · rename_i same
      rw [same]
    · omega

theorem enter_wiring {rec : Record} (accounts : sh.Accounts) (wiring : sh.Wiring)
    (held : sh.Holds c rec.subject h b) : (sh.enter h b rec).Wiring := by
  have later {r : Ref} (below : r < sh.next) : r < sh.next + 1 := below.trans (Nat.lt_succ_self _)
  have holds {c' s' h' b'} : (sh.enter h b rec).Holds c' s' h' b' ↔ sh.Holds c' s' h' b' :=
    enter_holds sh h b rec
  have newBuf : ((sh.enter h b rec).entries sh.next).buf = b := by
    simp only [enter, Function.update_self]
  constructor
  · intro e waits
    rw [enter_waiting accounts, List.mem_append, List.mem_singleton] at waits
    rcases waits with old | rfl
    · exact later (wiring.fresh old)
    · exact Nat.lt_succ_self _
  · exact fun found => later (wiring.freshHist found)
  · exact fun held' => later (wiring.freshBuf (holds.mp held'))
  · exact wiring.oneHist
  · exact fun first second => wiring.oneBuf (holds.mp first) (holds.mp second)
  · intro c' s' h' b' held'
    have before : sh.live.filter (fun e => ((sh.enter h b rec).entries e).buf = b') =
        sh.ringOf b' := by
      apply List.filter_congr
      intro e alive
      rw [enter_entry h b rec (wiring.fresh (mem_live.mp alive).1)]
    rw [ringOf, enter_live accounts wiring, List.filter_append, before,
      ← wiring.ring (holds.mp held')]
    simp only [List.filter_cons, List.filter_nil, newBuf, decide_eq_true_eq]
    simp only [enter, setBuf, Function.update_apply, eq_comm (a := b')]
    split
    · rename_i same
      rw [same, SubjectBuf.toList_push]
    · rw [List.append_nil]
  · intro e alive
    rw [enter_live accounts wiring, List.mem_append, List.mem_singleton] at alive
    rcases alive with old | rfl
    · rw [enter_entry h b rec (wiring.fresh (mem_live.mp old).1)]
      obtain ⟨c', r, record, size, held'⟩ := wiring.home old
      exact ⟨c', r, record, size, holds.mpr held'⟩
    · refine ⟨c, rec, ?_, ?_, holds.mpr ?_⟩
      · simp only [enter, Function.update_self]
      · simp only [enter, Function.update_self]
      · simp only [enter, Function.update_self]
        exact held

/-- A retired head leaves the other rings alone and its own one shorter. -/
theorem retire_n {buf : SubjectBuf Ref} {rest : List Ref} (left : buf.toList = rest)
    (ring : (sh.bufs b).toList = e :: rest) (b' : Ref) :
    (((sh.setBuf b buf).kill e).bufs b').n = if b' = b then (sh.bufs b).n - 1 else (sh.bufs b').n := by
  rw [((sh.setBuf b buf).kill_spared e).bufs]
  simp only [setBuf, Function.update_apply]
  split
  · rw [SubjectBuf.n_eq left, SubjectBuf.n_eq ring, List.length_cons, Nat.add_sub_cancel]
  · rfl

theorem cap_spec {rec : Record} (accounts : sh.Accounts) (wiring : sh.Wiring) (capped : sh.Capped)
    (held : sh.Holds c rec.subject h b) :
    ∃ sh', (sh.enter h b rec).cap b = .ok sh' ∧ sh'.Accounts ∧ sh'.Wiring ∧ sh'.Capped ∧
      sh'.maxBytes = sh.maxBytes ∧ sh'.maxPerSubject = sh.maxPerSubject ∧
      sh'.dead.length ≤ sh.dead.length + if sh.maxPerSubject ≤ (sh.bufs b).n then 1 else 0 := by
  have accounts' : (sh.enter h b rec).Accounts := enter_accounts accounts wiring
  have wiring' := enter_wiring accounts wiring held
  have holds {c' s' h' b'} : (sh.enter h b rec).Holds c' s' h' b' ↔ sh.Holds c' s' h' b' :=
    enter_holds sh h b rec
  have other {b' : Ref} (apart : b' ≠ b) : (sh.enter h b rec).bufs b' = sh.bufs b' :=
    Function.update_of_ne apart _ _
  have own : ((sh.enter h b rec).bufs b).n = (sh.bufs b).n + 1 := by
    rw [← SubjectBuf.length_toList, ← SubjectBuf.length_toList]
    simp only [enter, setBuf, Function.update_self, SubjectBuf.toList_push, List.length_append,
      List.length_singleton]
  simp only [cap]
  split
  · rename_i full
    change sh.maxPerSubject < _ at full
    cases ring : ((sh.enter h b rec).bufs b).toList with
    | nil =>
      have none := SubjectBuf.n_eq ring
      rw [own, List.length_nil] at none
      omega
    | cons first rest =>
      obtain ⟨buf, popped, left⟩ := SubjectBuf.popHead_spec ring
      obtain ⟨kept, wired, _⟩ := retire_spec accounts' wiring' (holds.mpr held) ring left
      have spared := ((sh.enter h b rec).setBuf b buf).kill_spared first
      rw [popped]
      have waits : ∀ e ∈ [first], e ∈ ((sh.enter h b rec).setBuf b buf).waiting := by
        intro e member
        rw [List.mem_singleton.mp member]
        have onRing : first ∈ (sh.enter h b rec).ringOf b := by
          rw [← wiring'.ring (holds.mpr held), ring]
          exact List.mem_cons_self
        exact (mem_live.mp (mem_ringOf.mp onRing).1).1
      have quiet : ((sh.enter h b rec).setBuf b buf).Accounts := { accounts' with }
      have one := dead_killed quiet waits
      have same := enter_dead accounts wiring h b rec
      refine ⟨_, rfl, kept, wired, ?_, spared.maxBytes, spared.maxPerSubject, ?_⟩
      case refine_2 =>
        rw [if_pos (by omega), ← same]
        exact one
      intro c' s' h' b' held'
      have before : sh.Holds c' s' h' b' :=
        holds.mp ⟨(spared.holds.mp held').conn, (spared.holds.mp held').ring⟩
      have limit := capped before
      rw [retire_n left ring, spared.maxPerSubject]
      change _ ≤ sh.maxPerSubject
      split
      · rename_i same
        rw [same] at limit
        omega
      · rename_i apart
        rw [other apart]
        exact limit
  · rename_i below
    have same := enter_dead accounts wiring h b rec
    refine ⟨_, rfl, accounts', wiring', ?_, rfl, rfl, same.le.trans (Nat.le_add_right ..)⟩
    intro c' s' h' b' held'
    by_cases same : b' = b
    · rw [same]
      exact Nat.le_of_not_lt below
    · rw [other same]
      exact capped (holds.mp held')

end Shard
end NatsExplorer.History
