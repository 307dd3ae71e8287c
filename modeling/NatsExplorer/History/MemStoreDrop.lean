import NatsExplorer.History.MemStoreInvariant

/-! Dropping kills whole rings and takes them, or their connection, out of the
store; the dead entries stay in the FIFO, which the invariant does not mind. -/
namespace NatsExplorer.History
open Go
namespace Shard
variable {sh sh' : Shard} {b h : Ref} {c s : Str}

/-- Nobody is left of the killed, and what is held was held and is whole. -/
theorem thin_spec {l : List Ref} (sound : sh.Sound) (waits : ∀ e ∈ l, e ∈ sh.waiting)
    (hists : Ref → ConnHist) (conns : Map Str Ref)
    (counters : ∀ h, (hists h).bytes = ((l.foldl kill sh).hists h).bytes ∧
      (hists h).count = ((l.foldl kill sh).hists h).count)
    (fewer : ∀ {c h}, conns.lookup c = some h → sh.conns.lookup c = some h)
    (holds : ∀ {c s h b}, conns.lookup c = some h → (hists h).subjects.lookup s = some b →
      sh.Holds c s h b ∧ ∀ e ∈ sh.ringOf b, e ∉ l)
    (keeps : ∀ {e c s}, e ∈ sh.live → e ∉ l → sh.Holds c s (sh.entries e).conn (sh.entries e).buf →
      conns.lookup c = some (sh.entries e).conn ∧
        (hists (sh.entries e).conn).subjects.lookup s = some (sh.entries e).buf) :
    Sound { l.foldl kill sh with hists := hists, conns := conns } := by
  obtain ⟨spared, accounts, lives⟩ := killed_spec sound.accounts waits
  have known {c h} (found : conns.lookup c = some h) :
      (l.foldl kill sh).conns.lookup c = some h := spared.conns ▸ fewer found
  constructor
  · exact { accounts with
      histBytes := fun found => (counters _).1.trans (accounts.histBytes (known found))
      histCount := fun found => (counters _).2.trans (accounts.histCount (known found)) }
  · apply sound.wiring.less
    · exact spared.next
    · exact fun waits => spared.waiting ▸ waits
    · exact fewer
    · exact fun held => (holds held.conn held.ring).1
    · intro c s h b held
      obtain ⟨before, whole⟩ := holds held.conn held.ring
      have ring : (l.foldl kill sh).ringOf b = sh.ringOf b := by
        have same : sh.ringOf b = (sh.ringOf b).filter (· ∉ l) :=
          (List.filter_eq_self.mpr fun e member => decide_eq_true (whole e member)).symm
        rw [same, ringOf, lives, ringOf, List.filter_comm]
        refine congrArg _ (List.filter_congr fun e _ => ?_)
        rw [(spared.fixed e).2.1]
      change ((l.foldl kill sh).bufs b).toList = (l.foldl kill sh).ringOf b
      rw [spared.bufs, ring]
      exact sound.wiring.ring before
    · intro e alive
      change e ∈ (l.foldl kill sh).live at alive
      refine ⟨?_, spared.kept (mem_live.mp alive).2⟩
      rw [lives] at alive
      exact List.mem_of_mem_filter alive
    · intro e c s alive held
      change e ∈ (l.foldl kill sh).live at alive
      rw [lives, List.mem_filter] at alive
      obtain ⟨conn, ring⟩ := keeps alive.1 (of_decide_eq_true alive.2) held
      exact ⟨conn, ring⟩
  · have lighter := weigh_filter_le (w := sh.size) (· ∉ l) sh.live fun e _ => Int.natCast_nonneg _
    have before := sound.budget
    rw [sound.accounts.bytes] at before
    change (l.foldl kill sh).bytes ≤ ((l.foldl kill sh).maxBytes : Int)
    rw [accounts.bytes, lives, spared.size, spared.maxBytes]
    exact lighter.trans before
  · intro c s h b held
    change ((l.foldl kill sh).bufs b).n ≤ (l.foldl kill sh).maxPerSubject
    rw [spared.bufs, spared.maxPerSubject]
    exact sound.capped (holds held.conn held.ring).1

theorem ring_waits (sound : sh.Sound) (held : sh.Holds c s h b) :
    ∀ e ∈ (sh.bufs b).toList, e ∈ sh.waiting := by
  intro e member
  rw [sound.wiring.ring held] at member
  exact (mem_live.mp (mem_ringOf.mp member).1).1

theorem cut_spec (sound : sh.Sound) (held : sh.Holds c s h b) :
    (sh.cut h ⟨s, b⟩).Sound ∧ (sh.cut h ⟨s, b⟩).conns = sh.conns ∧
      (∀ {s' b'}, s' ≠ s → sh.Holds c s' h b' → (sh.cut h ⟨s, b⟩).Holds c s' h b') ∧
      (sh.cut h ⟨s, b⟩).maxBytes = sh.maxBytes ∧
      (sh.cut h ⟨s, b⟩).maxPerSubject = sh.maxPerSubject := by
  have ring := sound.wiring.ring held
  have waits := ring_waits sound held
  obtain ⟨spared, _, _⟩ := killed_spec sound.accounts waits
  have subjects (h' : Ref) : ((sh.cut h ⟨s, b⟩).hists h').subjects =
      if h' = h then (sh.hists h).subjects.erase s else (sh.hists h').subjects := by
    simp only [cut, killAll, Function.update_apply]
    split
    · rw [spared.subjects]
    · rw [spared.subjects]
  have erased {h' s' b'} (found : ((sh.cut h ⟨s, b⟩).hists h').subjects.lookup s' = some b') :
      (sh.hists h').subjects.lookup s' = some b' ∧ (h' = h → s' ≠ s) := by
    rw [subjects] at found
    split at found
    · rename_i here
      subst here
      have other : s' ≠ s := by
        rintro rfl
        rw [AList.lookup_erase] at found
        cases found
      rw [AList.lookup_erase_ne other] at found
      exact ⟨found, fun _ => other⟩
    · rename_i elsewhere
      exact ⟨found, fun here => absurd here elsewhere⟩
  have left {h' s' b'} (found : (sh.hists h').subjects.lookup s' = some b')
      (other : h' = h → s' ≠ s) :
      ((sh.cut h ⟨s, b⟩).hists h').subjects.lookup s' = some b' := by
    rw [subjects]
    split
    · rename_i here
      subst here
      rw [AList.lookup_erase_ne (other rfl)]
      exact found
    · exact found
  refine ⟨?_, spared.conns, ?_, spared.maxBytes, spared.maxPerSubject⟩
  · apply thin_spec sound waits (sh.cut h ⟨s, b⟩).hists (sh.cut h ⟨s, b⟩).conns
    · intro h'
      simp only [cut, killAll, Function.update_apply]
      split
      · rename_i here
        rw [here]
        exact ⟨rfl, rfl⟩
      · exact ⟨rfl, rfl⟩
    · exact fun found => spared.conns ▸ found
    · intro c' s' h' b' conn found
      obtain ⟨before, other⟩ := erased found
      have held' : sh.Holds c' s' h' b' := ⟨spared.conns ▸ conn, before⟩
      refine ⟨held', fun e member gone => ?_⟩
      rw [ring] at gone
      have same : b' = b := (mem_ringOf.mp member).2.symm.trans (mem_ringOf.mp gone).2
      subst same
      obtain ⟨here, subject⟩ := sound.wiring.oneBuf held' held
      exact other here subject
    · intro e c' s' alive stays held'
      refine ⟨spared.conns.symm ▸ held'.conn, left held'.ring fun here same => ?_⟩
      subst same
      have conn := held'.ring
      rw [here, held.ring, Option.some.injEq] at conn
      apply stays
      rw [ring]
      exact mem_ringOf.mpr ⟨alive, conn.symm⟩
  · intro s' b' other held'
    exact ⟨spared.conns.symm ▸ held'.conn, left held'.ring fun _ => other⟩

/-- A connection nobody alive belongs to goes. -/
theorem close_spec {l : List Ref} (sound : sh.Sound) (waits : ∀ e ∈ l, e ∈ sh.waiting)
    (known : sh.conns.lookup c = some h)
    (own : ∀ e ∈ l, (sh.entries e).conn = h)
    (empty : ∀ {e}, e ∈ sh.live → (sh.entries e).conn = h → e ∈ l) :
    Sound { l.foldl kill sh with conns := sh.conns.erase c } := by
  obtain ⟨spared, _, _⟩ := killed_spec sound.accounts waits
  have fewer {c' h'} (found : (sh.conns.erase c).lookup c' = some h') :
      c' ≠ c ∧ sh.conns.lookup c' = some h' := by
    have other : c' ≠ c := by
      rintro rfl
      rw [AList.lookup_erase] at found
      cases found
    rw [AList.lookup_erase_ne other] at found
    exact ⟨other, found⟩
  apply thin_spec sound waits (l.foldl kill sh).hists (sh.conns.erase c)
  · exact fun _ => ⟨rfl, rfl⟩
  · exact fun found => (fewer found).2
  · intro c' s' h' b' conn found
    obtain ⟨other, conn⟩ := fewer conn
    rw [spared.subjects] at found
    refine ⟨⟨conn, found⟩, fun e member gone => ?_⟩
    obtain ⟨alive, ring⟩ := mem_ringOf.mp member
    obtain ⟨c'', r, _, _, held⟩ := sound.wiring.home alive
    rw [ring, own e gone] at held
    obtain ⟨here, _⟩ := sound.wiring.oneBuf held ⟨conn, found⟩
    exact other (sound.wiring.oneHist conn (here ▸ known))
  · intro e c' s' alive stays held
    rw [spared.subjects]
    have other : c' ≠ c := by
      rintro rfl
      have here := held.conn
      rw [known, Option.some.injEq] at here
      exact stays (empty alive here.symm)
    rw [AList.lookup_erase_ne other]
    exact ⟨held.conn, held.ring⟩

theorem cuts_spec {going : List ((_ : Str) × Ref)} (sound : sh.Sound)
    (distinct : (going.map (·.fst)).Nodup) (held : ∀ p ∈ going, sh.Holds c p.fst h p.snd) :
    (going.foldl (cut h) sh).Sound ∧ (going.foldl (cut h) sh).conns = sh.conns ∧
      (going.foldl (cut h) sh).maxBytes = sh.maxBytes ∧
      (going.foldl (cut h) sh).maxPerSubject = sh.maxPerSubject := by
  induction going generalizing sh with
  | nil => exact ⟨sound, rfl, rfl, rfl⟩
  | cons p going ih =>
    obtain ⟨absent, distinct⟩ := List.nodup_cons.mp distinct
    obtain ⟨sound', conns, others, maxBytes, maxPerSubject⟩ :=
      cut_spec sound (held p List.mem_cons_self)
    have rest : ∀ q ∈ going, (sh.cut h p).Holds c q.fst h q.snd := by
      intro q member
      apply others
      · intro same
        exact absent (List.mem_map.mpr ⟨q, member, same⟩)
      · exact held q (List.mem_cons_of_mem _ member)
    obtain ⟨sound'', conns', maxBytes', maxPerSubject'⟩ := ih sound' distinct rest
    exact ⟨sound'', conns'.trans conns, maxBytes'.trans maxBytes,
      maxPerSubject'.trans maxPerSubject⟩

theorem going_distinct (rt : Runtime) (matching : Str → Bool) (hist : ConnHist) :
    (((rt.range hist.subjects.entries).filter fun p => matching p.fst).map (·.fst)).Nodup := by
  apply List.Nodup.sublist (List.filter_sublist.map _)
  exact ((rt.range_perm _).map _).nodup_iff.mpr hist.subjects.nodupKeys

theorem going_held (rt : Runtime) (matching : Str → Bool) (known : sh.conns.lookup c = some h) :
    ∀ p ∈ (rt.range (sh.hists h).subjects.entries).filter (fun p => matching p.fst),
      sh.Holds c p.fst h p.snd := by
  intro p member
  have listed := rt.mem_range.mp (List.mem_of_mem_filter member)
  exact ⟨known, AList.mem_lookup_iff.mpr listed⟩

theorem dropWhere_spec (rt : Runtime) (matching : Str → Bool) (sound : sh.Sound) (connID : Str) :
    (sh.dropWhere rt matching connID).1.Sound ∧
      (sh.dropWhere rt matching connID).1.maxBytes = sh.maxBytes ∧
      (sh.dropWhere rt matching connID).1.maxPerSubject = sh.maxPerSubject := by
  simp only [dropWhere]
  cases known : sh.conns.lookup connID with
  | none => exact ⟨sound, rfl, rfl⟩
  | some h =>
    obtain ⟨sound', conns, maxBytes, maxPerSubject⟩ :=
      cuts_spec sound (going_distinct rt matching (sh.hists h)) (going_held rt matching known)
    simp only
    generalize ((rt.range (sh.hists h).subjects.entries).filter
      fun p => matching p.fst).foldl (cut h) sh = left at sound' conns maxBytes maxPerSubject ⊢
    split
    · rename_i bare
      refine ⟨?_, maxBytes, maxPerSubject⟩
      have known' : left.conns.lookup connID = some h := conns.symm ▸ known
      apply close_spec (l := []) sound' (fun _ none => absurd none List.not_mem_nil) known'
      · exact fun _ none => absurd none List.not_mem_nil
      · intro e alive here
        obtain ⟨_, r, _, _, held⟩ := sound'.wiring.home alive
        rw [here] at held
        have member := AList.lookup_isSome.mp (Option.isSome_of_eq_some held.ring)
        rw [AList.mem_keys, List.eq_nil_of_length_eq_zero bare] at member
        exact absurd member List.not_mem_nil
    · exact ⟨sound', maxBytes, maxPerSubject⟩

theorem killAll_eq (sh : Shard) (rings : List Ref) :
    rings.foldl killAll sh = (rings.flatMap fun b => (sh.bufs b).toList).foldl kill sh := by
  have spared (l : List Ref) (sh : Shard) : Spared sh (l.foldl kill sh) := by
    induction l generalizing sh with
    | nil => exact .refl sh
    | cons e l ih => exact (sh.kill_spared e).trans (ih (sh.kill e))
  induction rings generalizing sh with
  | nil => rfl
  | cons b rings ih =>
    rw [List.foldl_cons, ih, List.flatMap_cons, List.foldl_append]
    simp only [killAll, (spared _ sh).bufs]

theorem rings_held (rt : Runtime) (known : sh.conns.lookup c = some h)
    (member : b ∈ rt.range (sh.hists h).subjects.values) : ∃ s, sh.Holds c s h b := by
  obtain ⟨s, found⟩ := Map.mem_values.mp (rt.mem_range.mp member)
  exact ⟨s, known, found⟩

theorem rings_wait (rt : Runtime) (sound : sh.Sound) (known : sh.conns.lookup c = some h) :
    ∀ e ∈ (rt.range (sh.hists h).subjects.values).flatMap fun b => (sh.bufs b).toList,
      e ∈ sh.waiting := by
  intro e member
  obtain ⟨b, listed, onRing⟩ := List.mem_flatMap.mp member
  obtain ⟨s, held⟩ := rings_held rt known listed
  exact ring_waits sound held e onRing

theorem drop_spec (rt : Runtime) (sound : sh.Sound) (connID : Str) :
    (sh.drop rt connID).Sound ∧ (sh.drop rt connID).maxBytes = sh.maxBytes ∧
      (sh.drop rt connID).maxPerSubject = sh.maxPerSubject := by
  simp only [drop]
  cases known : sh.conns.lookup connID with
  | none => exact ⟨sound, rfl, rfl⟩
  | some h =>
    have waits := rings_wait rt sound known
    simp only [killAll_eq]
    obtain ⟨spared, _, _⟩ := killed_spec sound.accounts waits
    refine ⟨?_, spared.maxBytes, spared.maxPerSubject⟩
    rw [spared.conns]
    apply close_spec sound waits known
    · intro e member
      obtain ⟨b, listed, onRing⟩ := List.mem_flatMap.mp member
      obtain ⟨s, held⟩ := rings_held rt known listed
      rw [sound.wiring.ring held] at onRing
      obtain ⟨alive, ring⟩ := mem_ringOf.mp onRing
      obtain ⟨_, r, _, _, held'⟩ := sound.wiring.home alive
      rw [ring] at held'
      exact (sound.wiring.oneBuf held' held).1
    · intro e alive here
      obtain ⟨c, r, _, _, held⟩ := sound.wiring.home alive
      rw [List.mem_flatMap]
      refine ⟨(sh.entries e).buf, rt.mem_range.mpr (Map.mem_values.mpr ⟨r.subject, ?_⟩), ?_⟩
      · rw [← here]
        exact held.ring
      · rw [sound.wiring.ring held]
        exact mem_ringOf.mpr ⟨alive, rfl⟩

theorem bare_sound (noFifo : sh.fifo = []) (noHead : sh.fifoHead = 0) (noConns : sh.conns = ∅)
    (noBytes : sh.bytes = 0) (noCount : sh.count = 0) : sh.Sound := by
  have waiting : sh.waiting = [] := by
    rw [waiting, noFifo, noHead]
    rfl
  have live : sh.live = [] := by
    rw [live, waiting]
    rfl
  have nobody {c h} (found : sh.conns.lookup c = some h) : False := by
    rw [noConns, AList.lookup_empty] at found
    cases found
  constructor
  · constructor
    · rw [noHead]
      exact Nat.zero_le _
    · rw [noFifo, noHead, waiting]
      rfl
    · rw [waiting]
      exact List.nodup_nil
    · rw [live, noBytes]
      rfl
    · rw [live, noCount]
      rfl
    · exact fun found => (nobody found).elim
    · exact fun found => (nobody found).elim
  · constructor
    · rw [waiting]
      exact fun none => absurd none List.not_mem_nil
    · exact fun found => (nobody found).elim
    · exact fun held => (nobody held.conn).elim
    · exact fun found => (nobody found).elim
    · exact fun held => (nobody held.conn).elim
    · exact fun held => (nobody held.conn).elim
    · rw [live]
      exact fun none => absurd none List.not_mem_nil
  · rw [noBytes]
    exact Int.natCast_nonneg _
  · exact fun held => (nobody held.conn).elim

theorem clear_sound (sh : Shard) : sh.clear.Sound := bare_sound rfl rfl rfl rfl rfl

theorem newShard_sound (maxBytes maxPerSubject : Nat) : (newShard maxBytes maxPerSubject).Sound :=
  bare_sound rfl rfl rfl rfl rfl

end Shard
end NatsExplorer.History
