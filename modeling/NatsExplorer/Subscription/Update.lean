import NatsExplorer.Subscription.ViewDelta

/-! `update` as a whole: whichever path it takes, the tab mirrors the view
afterwards. -/
namespace NatsExplorer.Subscription
open Go
namespace ClientView
variable {R : Type} [Tables]

/-- What `update` leaves behind. -/
structure Updated (v : ClientView) (t : Tree R) (tab : Tab R)
    (result : ClientView × Option (TreeUpdate R)) : Prop where
  view : result.1 = { v with needFull := false, dirty := false, sent := result.1.sent }
  sent (s) : s ∈ result.1.sent ↔ v.Shown t s
  mirrors : result.1.Mirrors t (tab.receive result.2)

variable {v : ClientView} {t : Tree R} {tab : Tab R}

/-- The view a changed tick works with. -/
def renewed (v : ClientView) : ClientView :=
  { v with needFull := false, sent := if v.needFull then ∅ else v.sent, dirty := false }

omit [Tables] in
theorem renewed_part (part : v.needFull = false) : v.renewed.sent = v.sent := by
  simp [renewed, part]

omit [Tables] in
theorem renewed_full (full : v.needFull = true) : v.renewed.sent = ∅ := by
  simp [renewed, full]

theorem update_by_view (rt : Runtime) (t : Tree R) (dirty : List Ref) (loaded : v.loaded = true)
    (change : v.needFull = true ∨ v.dirty = true) : v.update rt t dirty =
      ((v.renewed.viewDelta rt t v.needFull dirty).1,
      if !v.needFull ∧ (v.renewed.viewDelta rt t v.needFull dirty).2.entries.length = 0 ∧
        (v.renewed.viewDelta rt t v.needFull dirty).2.removed.length = 0 then none
      else some (v.renewed.viewDelta rt t v.needFull dirty).2) := by
  have either : (v.dirty || v.needFull) = true := by
    rcases change with h | h <;> simp [h]
  unfold update
  rw [if_neg (by simp [loaded])]
  dsimp only
  rw [if_pos either]
  exact (apply_ite (Prod.mk (v.renewed.viewDelta rt t v.needFull dirty).1) ..).symm

theorem update_by_dirty (rt : Runtime) (t : Tree R) (dirty : List Ref) (loaded : v.loaded = true)
    (part : v.needFull = false) (same : v.dirty = false) : v.update rt t dirty =
      ((v.dirtyDelta t dirty).1, if (v.dirtyDelta t dirty).2.entries.length = 0 then none
      else some (v.dirtyDelta t dirty).2) := by
  have view : { v with needFull := false, sent := if v.needFull then ∅ else v.sent } = v := by
    rw [part, if_neg (by simp), ← part]
  unfold update
  rw [if_neg (by simp [loaded])]
  dsimp only
  rw [if_neg (by simp [part, same]), view]
  exact (apply_ite (Prod.mk (v.dirtyDelta t dirty).1) ..).symm

theorem update_changed (rt : Runtime) (linked : t.Linked) (marked : t.Marked)
    (loaded : v.loaded = true) (change : v.needFull = true ∨ v.dirty = true)
    (synced : v.needFull = false → v.Synced t tab)
    (last : v.needFull = false → v.LastWord t t.dirty) :
    Updated v t tab (v.update rt t t.dirty) := by
  obtain ⟨mirrors, sent⟩ : v.renewed.Mirrors t
      (tab.receive (some (v.renewed.viewDelta rt t v.needFull t.dirty).2)) ∧
      ∀ s, s ∈ (v.renewed.viewDelta rt t v.needFull t.dirty).1.sent ↔ v.renewed.Shown t s := by
    refine viewDelta_spec rt linked marked (fun part => ?_) (fun full s => ?_) ?_
    · have kept := renewed_part part
      exact ⟨fun s => kept ▸ (synced part).domain s, fun sent => (synced part).current (kept ▸ sent)⟩
    · rw [renewed_full full]
      exact AList.notMem_empty s
    · cases full : v.needFull with
      | false =>
        exact (last full).imp fun word live sent => word live (renewed_part full ▸ sent)
      | true =>
        exact List.pairwise_of_forall fun a b _ sent =>
          absurd (renewed_full full ▸ sent) (AList.notMem_empty _)
  rw [update_by_view rt t t.dirty loaded change]
  refine ⟨rfl, sent, ?_⟩
  rw [Tab.receive, Mirror.receive_worth]
  · exact mirrors
  · rintro ⟨part, noEntries, noRemoved⟩
    have part : v.needFull = false := by simpa using part
    exact ⟨part, List.length_eq_zero_iff.mp noEntries, List.length_eq_zero_iff.mp noRemoved⟩

theorem update_settled (rt : Runtime) (linked : t.Linked) (marked : t.Marked)
    (loaded : v.loaded = true) (part : v.needFull = false) (same : v.dirty = false)
    (synced : v.Synced t tab) (settled : v.Settled t) (upheld : v.Upheld t) :
    Updated v t tab (v.update rt t t.dirty) := by
  obtain ⟨mirrors, sent⟩ := dirtyDelta_spec linked marked synced settled upheld
  rw [update_by_dirty rt t t.dirty loaded part same]
  refine ⟨?_, sent, ?_⟩
  · simp only [dirtyDelta, part, same]
  · rw [Tab.receive, Mirror.receive_worth]
    · exact mirrors
    · exact fun noEntries => ⟨rfl, List.length_eq_zero_iff.mp noEntries, rfl⟩

theorem update_view (rt : Runtime) (v : ClientView) (t : Tree R) (dirty : List Ref) :
    ∃ sent dirty' needFull, (v.update rt t dirty).1 =
      { v with sent := sent, dirty := dirty', needFull := needFull } := by
  unfold update
  split
  · exact ⟨_, _, _, rfl⟩
  · dsimp only
    by_cases change : (v.dirty || v.needFull) = true
    · rw [if_pos change, apply_ite Prod.fst, ite_self]
      exact ⟨_, _, _, rfl⟩
    · rw [if_neg change, apply_ite Prod.fst, ite_self]
      exact ⟨_, _, _, rfl⟩

theorem setExpr_view [Filter.Compiler] (v : ClientView) (text : Str) :
    ∃ prg exprErr, v.setExpr text = { v with prg := prg, exprErr := exprErr } ∧
      (strings.trimSpace text = [] → prg = none) := by
  unfold setExpr
  dsimp only
  split
  · rename_i expr
    split
    · exact ⟨_, _, rfl, fun none => absurd none expr⟩
    · exact ⟨_, _, rfl, fun none => absurd none expr⟩
  · exact ⟨_, _, rfl, fun _ => rfl⟩

omit [Tables] in
/-- A preview that changes asks for everything again. -/
theorem setPreview_view (v : ClientView) (noPreview : Bool) :
    ∃ needFull, v.setPreview noPreview = { v with noPreview := noPreview, needFull := needFull } ∧
      (needFull = false → v.needFull = false ∧ noPreview = v.noPreview) := by
  unfold setPreview
  split
  · exact ⟨true, rfl, by simp⟩
  · rename_i same
    exact ⟨v.needFull, by rw [← not_ne_iff.mp same], fun part => ⟨part, (not_ne_iff.mp same).symm⟩⟩

theorem set_view [Filter.Compiler] (v : ClientView) (view : View) :
    ∃ all paths terms prg exprErr needFull, v.set view = { v with
        all := all, paths := paths, terms := terms, prg := prg, exprErr := exprErr
        noPreview := view.noPreview, needFull := needFull, dirty := true, loaded := true } ∧
      (needFull = false → v.needFull = false ∧ view.noPreview = v.noPreview) ∧
      (strings.trimSpace view.expr = [] → prg = none) := by
  let v' : ClientView := { v with
    all := view.all
    paths := keySet view.paths
    terms := strings.fields (strings.toLower view.filter) }
  obtain ⟨prg, exprErr, expr, plain⟩ := setExpr_view v' view.expr
  obtain ⟨needFull, preview, part⟩ := setPreview_view (v'.setExpr view.expr) view.noPreview
  rw [expr] at preview part
  refine ⟨v'.all, v'.paths, v'.terms, prg, exprErr, needFull, ?_, part, plain⟩
  change { (v'.setExpr view.expr).setPreview view.noPreview with dirty := true, loaded := true } = _
  rw [expr, preview]

end ClientView
end NatsExplorer.Subscription
