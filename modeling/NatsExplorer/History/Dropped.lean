import NatsExplorer.History.Contents

/-! What a drop of subjects leaves in memory: every other subject with what it had. -/
namespace NatsExplorer.History
open Go

namespace Shard
variable {sh : Shard} {b h : Ref} {c s : Str}

theorem cut_holds (sound : sh.Sound) (held : sh.Holds c s h b) {c' s' : Str} {h' b' : Ref} :
    (sh.cut h ⟨s, b⟩).Holds c' s' h' b' ↔ sh.Holds c' s' h' b' ∧ ¬ (c' = c ∧ s' = s) := by
  obtain ⟨-, conns, others, -, -⟩ := cut_spec sound held
  obtain ⟨spared, -, -⟩ := killed_spec sound.accounts (ring_waits sound held)
  constructor
  · intro after
    have before := (cut_shed h sh ⟨s, b⟩).holds after
    refine ⟨before, ?_⟩
    rintro ⟨rfl, rfl⟩
    have same : h' = h := Option.some.inj (before.conn.symm.trans held.conn)
    subst same
    have ring := after.ring
    simp only [cut, Function.update_self, AList.lookup_erase] at ring
    cases ring
  · rintro ⟨before, other⟩
    refine ⟨conns ▸ before.conn, ?_⟩
    simp only [cut, killAll, Function.update_apply]
    split
    · rename_i here
      subst here
      have conn := sound.wiring.oneHist before.conn held.conn
      have differ : s' ≠ s := fun same => other ⟨conn, same⟩
      rw [spared.subjects, AList.lookup_erase_ne differ]
      exact before.ring
    · rw [spared.subjects]
      exact before.ring

/-- A ring that is not killed has its messages still. -/
theorem cut_records (sound : sh.Sound) (held : sh.Holds c s h b) {c' s' : Str} {h' b' : Ref} (before : sh.Holds c' s' h' b')
    (other : ¬ (c' = c ∧ s' = s)) : (sh.cut h ⟨s, b⟩).records b' = sh.records b' := by
  obtain ⟨spared, -, lives⟩ := killed_spec sound.accounts (ring_waits sound held)
  have ring := sound.wiring.ring before
  have bufs : ((sh.cut h ⟨s, b⟩).bufs b').toList = (sh.bufs b').toList := by
    change ((((sh.bufs b).toList.foldl kill sh).bufs) b').toList = _
    rw [spared.bufs]
  unfold records
  rw [bufs]
  refine List.filterMap_congr fun e member => ?_
  rw [ring] at member
  obtain ⟨alive, own⟩ := mem_ringOf.mp member
  have spares : e ∉ (sh.bufs b).toList := by
    intro killed
    rw [sound.wiring.ring held] at killed
    have same : b' = b := own.symm.trans (mem_ringOf.mp killed).2
    subst same
    obtain ⟨here, subject⟩ := sound.wiring.oneBuf before held
    subst here
    exact other ⟨sound.wiring.oneHist before.conn held.conn, subject⟩
  have still : e ∈ ((sh.bufs b).toList.foldl kill sh).live := by
    rw [lives]
    exact List.mem_filter.mpr ⟨alive, decide_eq_true spares⟩
  exact congrArg Entry.record (spared.kept (mem_live.mp still).2)

theorem contents_none (none : ∀ h b, ¬ sh.Holds c s h b) : sh.contents c s = [] := by
  rcases sh.contents_cases c s with ⟨h, b, held⟩ | ⟨empty, -⟩
  · exact absurd held (none h b)
  · exact empty

theorem cut_contents (sound : sh.Sound) (held : sh.Holds c s h b) (c' s' : Str) :
    (sh.cut h ⟨s, b⟩).contents c' s' = if c' = c ∧ s' = s then [] else sh.contents c' s' := by
  split
  · rename_i gone
    exact contents_none fun h' b' after => ((cut_holds sound held).mp after).2 gone
  · rename_i other
    rcases sh.contents_cases c' s' with ⟨h', b', before⟩ | ⟨empty, none⟩
    · rw [((cut_holds sound held).mpr ⟨before, other⟩).contents, before.contents]
      exact cut_records sound held before other
    · rw [empty]
      exact contents_none fun h' b' after => none h' b' ((cut_holds sound held).mp after).1

/-- The loop over the rings that go. -/
theorem cuts_contents {going : List ((_ : Str) × Ref)} (sound : sh.Sound) (distinct : (going.map (·.fst)).Nodup)
    (held : ∀ p ∈ going, sh.Holds c p.fst h p.snd) (c' s' : Str) :
    (going.foldl (cut h) sh).contents c' s' = (if c' = c ∧ s' ∈ going.map (·.fst) then [] else sh.contents c' s') ∧
      ∀ h' b', (going.foldl (cut h) sh).Holds c' s' h' b' ↔ sh.Holds c' s' h' b' ∧ ¬ (c' = c ∧ s' ∈ going.map (·.fst)) := by
  induction going generalizing sh with
  | nil => simp
  | cons p going ih =>
    rw [List.map_cons, List.nodup_cons] at distinct
    have first := held p List.mem_cons_self
    have sound' := (cut_spec sound first).1
    have rest : ∀ q ∈ going, (sh.cut h p).Holds c q.fst h q.snd := by
      intro q member
      refine (cut_holds sound first).mpr ⟨held q (List.mem_cons_of_mem _ member), fun same => ?_⟩
      exact distinct.1 (List.mem_map.mpr ⟨q, member, same.2⟩)
    obtain ⟨contents, holds⟩ := ih sound' distinct.2 rest
    refine ⟨?_, fun h' b' => ?_⟩
    · rw [List.foldl_cons, contents, cut_contents sound first]
      simp only [List.map_cons, List.mem_cons]
      grind
    · rw [List.foldl_cons, holds, cut_holds sound first]
      simp only [List.map_cons, List.mem_cons]
      tauto

theorem mem_going (rt : Runtime) (matching : Str → Bool) (known : sh.conns.lookup c = some h) :
    s ∈ ((rt.range (sh.hists h).subjects.entries).filter fun p => matching p.fst).map (·.fst) ↔
      matching s = true ∧ ∃ h b, sh.Holds c s h b := by
  rw [List.mem_map]
  constructor
  · rintro ⟨p, member, rfl⟩
    exact ⟨(List.mem_filter.mp member).2, h, p.snd, going_held rt matching known p member⟩
  · rintro ⟨matches_, h', b, held⟩
    have same : h' = h := Option.some.inj (held.conn.symm.trans known)
    subst same
    refine ⟨⟨s, b⟩, List.mem_filter.mpr ⟨rt.mem_range.mpr ?_, matches_⟩, rfl⟩
    exact AList.mem_lookup_iff.mp held.ring

/-- A connection without a subject goes unnoticed. -/
theorem close_contents (known : sh.conns.lookup c = some h) (bare : (sh.hists h).subjects.keys.length = 0) (c' s' : Str) :
    contents { sh with conns := sh.conns.erase c } c' s' = sh.contents c' s' ∧
      ∀ h' b', Holds { sh with conns := sh.conns.erase c } c' s' h' b' ↔ sh.Holds c' s' h' b' := by
  have none : ∀ s h' b, ¬ sh.Holds c s h' b := by
    intro s h' b held
    have same : h' = h := Option.some.inj (held.conn.symm.trans known)
    subst same
    have member := AList.lookup_isSome.mp (Option.isSome_of_eq_some held.ring)
    rw [AList.mem_keys, List.eq_nil_of_length_eq_zero bare] at member
    exact absurd member List.not_mem_nil
  have holds : ∀ h' b', Holds { sh with conns := sh.conns.erase c } c' s' h' b' ↔ sh.Holds c' s' h' b' := by
    intro h' b'
    refine ⟨(close_shed sh c).holds, fun held => ⟨?_, held.ring⟩⟩
    have other : c' ≠ c := by
      rintro rfl
      exact none s' h' b' held
    exact (AList.lookup_erase_ne other).trans held.conn
  refine ⟨?_, holds⟩
  rcases sh.contents_cases c' s' with ⟨h', b', held⟩ | ⟨empty, nobody⟩
  · rw [((holds h' b').mpr held).contents, held.contents]
    rfl
  · rw [empty]
    exact contents_none fun h' b' held => nobody h' b' ((holds h' b').mp held)

/-- What is dropped is gone, and everything else is there. -/
theorem dropWhere_contents (rt : Runtime) (matching : Str → Bool) (sound : sh.Sound) (connID c' s' : Str) :
    (sh.dropWhere rt matching connID).1.contents c' s' =
        (if c' = connID ∧ matching s' = true then [] else sh.contents c' s') ∧
      ∀ h b, (sh.dropWhere rt matching connID).1.Holds c' s' h b ↔
        sh.Holds c' s' h b ∧ ¬ (c' = connID ∧ matching s' = true) := by
  unfold dropWhere
  cases known : sh.conns.lookup connID with
  | none =>
    have nobody : ∀ s h b, ¬ sh.Holds connID s h b := by
      intro s h b held
      rw [held.conn] at known
      cases known
    refine ⟨?_, fun h b => (and_iff_left_of_imp ?_).symm⟩
    · by_cases gone : c' = connID ∧ matching s' = true
      · rw [if_pos gone, gone.1]
        exact contents_none (nobody s')
      · rw [if_neg gone]
    · rintro held ⟨rfl, -⟩
      exact nobody s' h b held
  | some h =>
    let going := (rt.range (sh.hists h).subjects.entries).filter fun p => matching p.fst
    obtain ⟨contents, holds⟩ := cuts_contents sound (going_distinct rt matching (sh.hists h)) (going_held rt matching known) c' s'
    have conns := (cuts_spec sound (going_distinct rt matching (sh.hists h)) (going_held rt matching known)).2.1
    have same : (going.foldl (cut h) sh).contents c' s' = (if c' = connID ∧ matching s' = true then [] else sh.contents c' s') ∧
        ∀ h' b, (going.foldl (cut h) sh).Holds c' s' h' b ↔ sh.Holds c' s' h' b ∧ ¬ (c' = connID ∧ matching s' = true) := by
      have reached : ∀ h' b', sh.Holds c' s' h' b' →
          (c' = connID ∧ s' ∈ going.map (·.fst) ↔ c' = connID ∧ matching s' = true) := by
        intro h' b' held
        refine and_congr_right fun own => ?_
        subst own
        exact (mem_going rt matching known).trans (and_iff_left ⟨h', b', held⟩)
      refine ⟨?_, fun h' b' => ?_⟩
      · rw [contents]
        rcases sh.contents_cases c' s' with ⟨h', b', held⟩ | ⟨empty, -⟩
        · exact if_congr (reached h' b' held) rfl rfl
        · rw [empty, ite_self, ite_self]
      · rw [holds]
        refine and_congr_right fun held => not_congr (reached h' b' held)
    dsimp only
    split
    · rename_i bare
      obtain ⟨closed, still⟩ := close_contents (conns ▸ known) bare c' s'
      exact ⟨closed.trans same.1, fun h' b' => (still h' b').trans (same.2 h' b')⟩
    · exact same

theorem dropWhere_gone (rt : Runtime) (matching : Str → Bool) (sh : Shard) (connID s : Str) :
    s ∈ (sh.dropWhere rt matching connID).2 ↔ matching s = true ∧ ∃ h b, sh.Holds connID s h b := by
  unfold dropWhere
  cases known : sh.conns.lookup connID with
  | none =>
    refine iff_of_false List.not_mem_nil ?_
    rintro ⟨-, h, b, held⟩
    rw [held.conn] at known
    cases known
  | some h => exact mem_going rt matching known

end Shard
end NatsExplorer.History
