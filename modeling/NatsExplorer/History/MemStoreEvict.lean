import NatsExplorer.History.MemStoreAppend

/-! The byte budget: the FIFO gives up its head until the shard is below it. The
head, when it is alive, is the head of its ring, so the two orders never part;
an empty FIFO has no bytes, so the budget always holds at the end. -/
namespace NatsExplorer.History
open Go
namespace Shard
variable {sh sh' : Shard} {e : Ref} {c s : Str}

/-- The slot at the FIFO's head is emptied and passed. -/
def skip (sh : Shard) : Shard :=
  { sh with fifo := sh.fifo.set sh.fifoHead none, fifoHead := sh.fifoHead + 1 }

theorem skip_kill (sh : Shard) (e : Ref) : sh.skip.kill e = (sh.kill e).skip := by
  cases dead : (sh.entries e).dead with
  | true => simp only [kill, skip, dead, ↓reduceIte]
  | false => simp only [kill, skip, dead, Bool.false_eq_true, ↓reduceIte]

theorem Accounts.first (accounts : sh.Accounts) (more : sh.fifoHead < sh.fifo.length) :
    ∃ old rest, sh.waiting = old :: rest ∧ sh.fifo[sh.fifoHead]?.join = some old := by
  have slots := accounts.slots
  rw [List.drop_eq_getElem_cons more] at slots
  cases waiting : sh.waiting with
  | nil =>
    rw [waiting] at slots
    cases slots
  | cons old rest =>
    rw [waiting, List.map_cons] at slots
    injection slots with head _
    refine ⟨old, rest, rfl, ?_⟩
    rw [List.getElem?_eq_getElem more, head]
    rfl

theorem Accounts.exhausted (accounts : sh.Accounts) (done : sh.fifo.length ≤ sh.fifoHead) :
    sh.bytes = 0 := by
  have none : sh.waiting = [] := by
    rw [waiting, List.drop_of_length_le done]
    rfl
  rw [accounts.bytes, live, none]
  rfl

theorem skip_waiting {old : Ref} {rest : List Ref} (first : sh.waiting = old :: rest)
    (accounts : sh.Accounts) :
    sh.skip.waiting = rest ∧ sh.skip.fifo.drop sh.skip.fifoHead = rest.map some := by
  have slots : sh.skip.fifo.drop sh.skip.fifoHead = rest.map some := by
    have later := accounts.slots
    rw [first, List.map_cons] at later
    simp only [skip]
    rw [List.drop_set_of_lt (Nat.lt_succ_self _), ← List.tail_drop, later, List.tail_cons]
  refine ⟨?_, slots⟩
  rw [waiting, slots]
  simp only [List.filterMap_map, Function.id_comp, List.filterMap_some]

/-- A dead head is passed without a trace. -/
theorem skip_spec {old : Ref} {rest : List Ref} (accounts : sh.Accounts) (wiring : sh.Wiring)
    (first : sh.waiting = old :: rest) (dead : (sh.entries old).dead = true) :
    sh.skip.Accounts ∧ sh.skip.Wiring ∧ sh.skip.live = sh.live := by
  obtain ⟨waiting, slots⟩ := skip_waiting first accounts
  have lives : sh.skip.live = sh.live := by
    rw [live, waiting, live, first]
    have gone : ¬ (!(sh.entries old).dead) = true := by
      rw [dead]
      exact Bool.false_ne_true
    exact (List.filter_cons_of_neg (p := fun e => !(sh.entries e).dead) gone).symm
  have more : sh.fifoHead < sh.fifo.length := by
    apply Nat.lt_of_not_le
    intro done
    rw [Shard.waiting, List.drop_of_length_le done] at first
    cases first
  refine ⟨?_, ?_, lives⟩
  · constructor
    · simp only [skip, List.length_set]
      exact more
    · rw [slots, waiting]
    · rw [waiting]
      exact (List.nodup_cons.mp (first ▸ accounts.nodup)).2
    · rw [lives]
      exact accounts.bytes
    · rw [lives]
      exact accounts.count
    · rw [lives]
      exact accounts.histBytes
    · rw [lives]
      exact accounts.histCount
  · have next : sh.skip.next = sh.next := rfl
    apply wiring.less next
    · intro e waits
      rw [waiting] at waits
      rw [first]
      exact List.mem_cons_of_mem _ waits
    · exact id
    · exact fun held => ⟨held.conn, held.ring⟩
    · intro c s h b held
      rw [ringOf, lives]
      exact wiring.ring ⟨held.conn, held.ring⟩
    · intro e alive
      exact ⟨lives ▸ alive, rfl⟩
    · exact fun _ held => ⟨held.conn, held.ring⟩

/-- A live head of the FIFO is the head of its ring. -/
theorem in_step {old : Ref} {rest : List Ref} (wiring : sh.Wiring) (first : sh.waiting = old :: rest)
    (alive : (sh.entries old).dead = false) :
    ∃ c s others, sh.Holds c s (sh.entries old).conn (sh.entries old).buf ∧
      (sh.bufs (sh.entries old).buf).toList = old :: others := by
  have lives : sh.live = old :: rest.filter fun e => !(sh.entries e).dead := by
    rw [live, first]
    exact List.filter_cons_of_pos (by simp only [alive, Bool.not_false])
  obtain ⟨c, r, _, _, held⟩ := wiring.home (lives ▸ List.mem_cons_self : old ∈ sh.live)
  have ring := wiring.ring held
  rw [ringOf, lives, List.filter_cons, if_pos (decide_eq_true rfl)] at ring
  exact ⟨c, r.subject, _, held, ring⟩

theorem evict_spec (fuel : Nat) (accounts : sh.Accounts) (wiring : sh.Wiring) (capped : sh.Capped)
    (enough : sh.fifo.length - sh.fifoHead ≤ fuel) :
    ∃ sh', sh.evict fuel = .ok sh' ∧ sh'.Sound ∧ sh'.maxBytes = sh.maxBytes ∧
      sh'.maxPerSubject = sh.maxPerSubject ∧ sh'.dead.length ≤ sh.dead.length := by
  induction fuel generalizing sh with
  | zero =>
    have none := accounts.exhausted (by omega)
    exact ⟨sh, rfl, ⟨accounts, wiring, by omega, capped⟩, rfl, rfl, le_rfl⟩
  | succ fuel ih =>
    simp only [evict]
    split
    · rename_i go
      obtain ⟨old, rest, first, slot⟩ := accounts.first go.2
      rw [slot]
      simp only
      cases dead : (sh.entries old).dead with
      | true =>
        obtain ⟨kept, wired, lives⟩ := skip_spec accounts wiring first dead
        have shorter : sh.skip.fifo.length - sh.skip.fifoHead ≤ fuel := by
          simp only [skip, List.length_set]
          omega
        obtain ⟨sh', done, sound, maxBytes, maxPerSubject, fewer⟩ := ih kept wired
          (fun held => capped ⟨held.conn, held.ring⟩) shorter
        have before := sh.length_waiting
        have after := sh.skip.length_waiting
        rw [(skip_waiting first accounts).1, lives] at after
        rw [first, List.length_cons] at before
        exact ⟨sh', done, sound, maxBytes, maxPerSubject, by omega⟩
      | false =>
        obtain ⟨c, s, others, held, ring⟩ := in_step wiring first dead
        obtain ⟨buf, popped, left⟩ := SubjectBuf.popHead_spec ring
        obtain ⟨kept, wired, lives⟩ := retire_spec accounts wiring held ring left
        have spared := (sh.setBuf (sh.entries old).buf buf).kill_spared old
        have capped' : ((sh.setBuf (sh.entries old).buf buf).kill old).Capped := by
          intro c' s' h' b' held'
          have before : sh.Holds c' s' h' b' :=
            ⟨(spared.holds.mp held').conn, (spared.holds.mp held').ring⟩
          have limit := capped before
          rw [retire_n left ring, spared.maxPerSubject]
          change _ ≤ sh.maxPerSubject
          split
          · rename_i same
            rw [same] at limit
            omega
          · exact limit
        have waiting : ((sh.setBuf (sh.entries old).buf buf).kill old).waiting = old :: rest :=
          spared.waiting.trans first
        have died : (((sh.setBuf (sh.entries old).buf buf).kill old).entries old).dead = true := by
          rw [← Bool.not_eq_false]
          intro breathing
          have still := mem_live.mpr ⟨waiting ▸ List.mem_cons_self, breathing⟩
          rw [lives, List.mem_filter] at still
          exact of_decide_eq_true still.2 rfl
        obtain ⟨passed, linked, lives'⟩ := skip_spec kept wired waiting died
        rw [popped]
        simp only [ne_eq, not_true_eq_false, ↓reduceIte, Bool.false_eq_true]
        have order : (sh.skip.setBuf (sh.entries old).buf buf).kill old =
            ((sh.setBuf (sh.entries old).buf buf).kill old).skip :=
          skip_kill (sh.setBuf (sh.entries old).buf buf) old
        obtain ⟨fifo, fifoHead⟩ := And.intro spared.fifo spared.fifoHead
        simp only [setBuf] at fifo fifoHead
        have shorter : ((sh.setBuf (sh.entries old).buf buf).kill old).skip.fifo.length -
            ((sh.setBuf (sh.entries old).buf buf).kill old).skip.fifoHead ≤ fuel := by
          simp only [skip, List.length_set, setBuf, fifo, fifoHead]
          omega
        obtain ⟨sh', done, sound, maxBytes, maxPerSubject, fewer⟩ := ih passed linked
          (fun held => capped' ⟨held.conn, held.ring⟩) shorter
        rw [← order] at done
        refine ⟨sh', done, sound, maxBytes.trans spared.maxBytes,
          maxPerSubject.trans spared.maxPerSubject, fewer.trans ?_⟩
        have before := sh.length_waiting
        have after := ((sh.setBuf (sh.entries old).buf buf).kill old).skip.length_waiting
        rw [(skip_waiting waiting kept).1, lives', lives] at after
        rw [first, List.length_cons] at before
        have one := weigh_remove (fun _ => 1) accounts.nodup_live
          (mem_live.mpr ⟨first ▸ List.mem_cons_self, dead⟩)
        rw [weigh_one, weigh_one] at one
        omega
    · rename_i stop
      refine ⟨sh, rfl, ⟨accounts, wiring, ?_, capped⟩, rfl, rfl, le_rfl⟩
      by_cases full : sh.bytes > sh.maxBytes
      · have none := accounts.exhausted (Nat.le_of_not_lt fun more => stop ⟨full, more⟩)
        omega
      · omega

theorem compact_sound (sound : sh.Sound) : sh.compact.Sound := by
  simp only [compact]
  split
  · obtain ⟨accounts, wiring, budget, capped⟩ := sound
    refine ⟨?_, ?_, budget, fun held => capped ⟨held.conn, held.ring⟩⟩
    · exact { accounts with head := Nat.zero_le _ }
    · constructor
      · exact wiring.fresh
      · exact wiring.freshHist
      · exact fun held => wiring.freshBuf ⟨held.conn, held.ring⟩
      · exact wiring.oneHist
      · exact fun held held' => wiring.oneBuf ⟨held.conn, held.ring⟩ ⟨held'.conn, held'.ring⟩
      · exact fun held => wiring.ring ⟨held.conn, held.ring⟩
      · intro e alive
        obtain ⟨c, r, record, size, held⟩ := wiring.home alive
        exact ⟨c, r, record, size, held.conn, held.ring⟩
  · exact sound

/-- Compacting leaves at most as many passed slots as waiting ones, past the first 4096. -/
theorem compact_spec (accounts : sh.Accounts) :
    sh.compact.waiting = sh.waiting ∧ sh.compact.dead = sh.dead ∧
      sh.compact.fifo.length ≤ 4096 + 2 * sh.waiting.length ∧
      sh.compact.maxBytes = sh.maxBytes ∧ sh.compact.maxPerSubject = sh.maxPerSubject := by
  have slots := congrArg List.length accounts.slots
  rw [List.length_drop, List.length_map] at slots
  have head := accounts.head
  simp only [compact]
  split
  · refine ⟨rfl, rfl, ?_, rfl, rfl⟩
    rw [List.length_drop]
    omega
  · refine ⟨rfl, rfl, ?_, rfl, rfl⟩
    omega

/-- What an append leaves. -/
structure Appended (sh sh' : Shard) (connID subject : Str) : Prop where
  sound : sh'.Sound
  maxBytes : sh'.maxBytes = sh.maxBytes
  maxPerSubject : sh'.maxPerSubject = sh.maxPerSubject
  dead : sh'.dead.length ≤
    sh.dead.length + if sh.maxPerSubject ≤ sh.ringLength connID subject then 1 else 0
  fifo : sh'.fifo.length ≤ 4096 + 2 * sh'.waiting.length

theorem append_spec (sound : sh.Sound) (connID : Str) (rec : Record) :
    ∃ sh', sh.append connID rec = .ok sh' ∧ Appended sh sh' connID rec.subject := by
  obtain ⟨length, dead⟩ := sh.opened_spec connID rec.subject
  obtain ⟨accounts, wiring, capped, known, bytes, perSubject⟩ :=
    connOf_spec sound.accounts sound.wiring sound.capped connID
  obtain ⟨accounts, wiring, capped, held, bytes', perSubject'⟩ :=
    bufOf_spec accounts wiring capped known rec.subject
  obtain ⟨sh₁, done, accounts, wiring, capped, bytes₁, perSubject₁, dead₁⟩ :=
    cap_spec accounts wiring capped held
  obtain ⟨sh₂, evicted, sound, bytes₂, perSubject₂, dead₂⟩ :=
    evict_spec _ accounts wiring capped le_rfl
  obtain ⟨waiting, dead₃, fifo, bytes₃, perSubject₃⟩ := compact_spec sound.accounts
  refine ⟨sh₂.compact, ?_, compact_sound sound, ?_, ?_, ?_, waiting ▸ fifo⟩
  · simp only [append, done, evicted]
  · rw [bytes₃, bytes₂, bytes₁, bytes', bytes]
  · rw [perSubject₃, perSubject₂, perSubject₁, perSubject', perSubject]
  · rw [dead, length, perSubject', perSubject] at dead₁
    rw [dead₃]
    exact dead₂.trans dead₁

end Shard
end NatsExplorer.History
