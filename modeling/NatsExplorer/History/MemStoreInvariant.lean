import NatsExplorer.History.MemStore
import Mathlib.Algebra.BigOperators.Group.List.Basic
import Mathlib.Data.List.Nodup

/-! The shard's invariant: the rings hold the live entries of the FIFO, subject
by subject and in its order, and the counters are sums over them. `Accounts` is
the part a lone `kill` keeps; `Wiring` ties entries to rings. -/
namespace NatsExplorer.History
open Go

/-- The sum of a quantity over entries. -/
def weigh (w : Ref → Int) (l : List Ref) : Int := (l.map w).sum

theorem weigh_append (w : Ref → Int) (l m : List Ref) : weigh w (l ++ m) = weigh w l + weigh w m := by
  simp only [weigh, List.map_append, List.sum_append]

theorem weigh_congr {w w' : Ref → Int} {l : List Ref} (same : ∀ e ∈ l, w e = w' e) :
    weigh w l = weigh w' l := by
  rw [weigh, weigh, List.map_congr_left same]

theorem weigh_one (l : List Ref) : weigh (fun _ => 1) l = l.length := by
  simp [weigh]

theorem weigh_zero {w : Ref → Int} {l : List Ref} (none : ∀ e ∈ l, w e = 0) : weigh w l = 0 := by
  induction l with
  | nil => rfl
  | cons e l ih =>
    have rest := ih fun x member => none x (List.mem_cons_of_mem _ member)
    have first := none e List.mem_cons_self
    simp only [weigh, List.map_cons, List.sum_cons] at rest ⊢
    omega

theorem weigh_remove (w : Ref → Int) {l : List Ref} {e : Ref} (nodup : l.Nodup) (member : e ∈ l) :
    weigh w (l.filter (· ≠ e)) = weigh w l - w e := by
  induction l with
  | nil => cases member
  | cons x l ih =>
    obtain ⟨absent, nodup⟩ := List.nodup_cons.mp nodup
    by_cases here : x = e
    · subst here
      have rest : l.filter (· ≠ x) = l := List.filter_eq_self.mpr fun y later =>
        decide_eq_true fun same => absent (same ▸ later)
      simp only [List.filter_cons, ne_eq, not_true_eq_false, decide_false, Bool.false_eq_true,
        ↓reduceIte, rest, weigh, List.map_cons, List.sum_cons]
      omega
    · have later := ih nodup ((List.mem_cons.mp member).resolve_left (Ne.symm here))
      simp only [weigh] at later ⊢
      simp only [List.filter_cons, ne_eq, here, not_false_eq_true, decide_true, ↓reduceIte,
        List.map_cons, List.sum_cons]
      simp only [ne_eq] at later
      omega

theorem weigh_filter_le {w : Ref → Int} (p : Ref → Bool) (l : List Ref) (positive : ∀ e ∈ l, 0 ≤ w e) :
    weigh w (l.filter p) ≤ weigh w l := by
  induction l with
  | nil => exact le_rfl
  | cons e l ih =>
    have rest := ih fun x member => positive x (List.mem_cons_of_mem _ member)
    have first := positive e List.mem_cons_self
    simp only [weigh] at rest ⊢
    rw [List.filter_cons]
    split
    · simp only [List.map_cons, List.sum_cons]
      omega
    · simp only [List.map_cons, List.sum_cons]
      omega

namespace Shard

/-- What the FIFO has yet to give up. -/
def waiting (sh : Shard) : List Ref := (sh.fifo.drop sh.fifoHead).filterMap id

def live (sh : Shard) : List Ref := sh.waiting.filter fun e => !(sh.entries e).dead

/-- The killed among them. -/
def dead (sh : Shard) : List Ref := sh.waiting.filter fun e => (sh.entries e).dead

def size (sh : Shard) (e : Ref) : Int := (sh.entries e).size

/-- A quantity of the entries of one connection. -/
def ofConn (sh : Shard) (h : Ref) (w : Ref → Int) (e : Ref) : Int :=
  if (sh.entries e).conn = h then w e else 0

def ringOf (sh : Shard) (b : Ref) : List Ref := sh.live.filter fun e => (sh.entries e).buf = b

/-- The ring of a subject of a connection. -/
structure Holds (sh : Shard) (connID subject : Str) (h b : Ref) : Prop where
  conn : sh.conns.lookup connID = some h
  ring : (sh.hists h).subjects.lookup subject = some b

structure Accounts (sh : Shard) : Prop where
  head : sh.fifoHead ≤ sh.fifo.length
  slots : sh.fifo.drop sh.fifoHead = sh.waiting.map some
  nodup : sh.waiting.Nodup
  bytes : sh.bytes = weigh sh.size sh.live
  count : sh.count = weigh (fun _ => 1) sh.live
  histBytes {c h} : sh.conns.lookup c = some h →
    (sh.hists h).bytes = weigh (sh.ofConn h sh.size) sh.live
  histCount {c h} : sh.conns.lookup c = some h →
    (sh.hists h).count = weigh (sh.ofConn h fun _ => 1) sh.live

structure Wiring (sh : Shard) : Prop where
  fresh {e} : e ∈ sh.waiting → e < sh.next
  freshHist {c h} : sh.conns.lookup c = some h → h < sh.next
  freshBuf {c s h b} : sh.Holds c s h b → b < sh.next
  oneHist {c c' h} : sh.conns.lookup c = some h → sh.conns.lookup c' = some h → c = c'
  oneBuf {c c' s s' h h' b} : sh.Holds c s h b → sh.Holds c' s' h' b → h = h' ∧ s = s'
  ring {c s h b} : sh.Holds c s h b → (sh.bufs b).toList = sh.ringOf b
  home {e} : e ∈ sh.live → ∃ c r, (sh.entries e).record = some r ∧ (sh.entries e).size = r.bytes ∧
    sh.Holds c r.subject (sh.entries e).conn (sh.entries e).buf

def Capped (sh : Shard) : Prop := ∀ {c s h b}, sh.Holds c s h b → (sh.bufs b).n ≤ sh.maxPerSubject

structure Sound (sh : Shard) : Prop where
  accounts : sh.Accounts
  wiring : sh.Wiring
  budget : sh.bytes ≤ sh.maxBytes
  capped : sh.Capped

/-- What killing leaves alone. -/
structure Spared (sh sh' : Shard) : Prop where
  fifo : sh'.fifo = sh.fifo
  fifoHead : sh'.fifoHead = sh.fifoHead
  conns : sh'.conns = sh.conns
  bufs : sh'.bufs = sh.bufs
  next : sh'.next = sh.next
  maxBytes : sh'.maxBytes = sh.maxBytes
  maxPerSubject : sh'.maxPerSubject = sh.maxPerSubject
  subjects (h : Ref) : (sh'.hists h).subjects = (sh.hists h).subjects
  kept {e : Ref} : (sh'.entries e).dead = false → sh'.entries e = sh.entries e
  fixed (e : Ref) : (sh'.entries e).size = (sh.entries e).size ∧
    (sh'.entries e).buf = (sh.entries e).buf ∧ (sh'.entries e).conn = (sh.entries e).conn

variable {sh sh' sh'' : Shard} {e x b h : Ref} {c s : Str}

theorem mem_live : e ∈ sh.live ↔ e ∈ sh.waiting ∧ (sh.entries e).dead = false := by
  simp only [live, List.mem_filter, Bool.not_eq_true']

theorem mem_ringOf : e ∈ sh.ringOf b ↔ e ∈ sh.live ∧ (sh.entries e).buf = b := by
  simp only [ringOf, List.mem_filter, decide_eq_true_eq]

theorem length_waiting (sh : Shard) : sh.waiting.length = sh.live.length + sh.dead.length := by
  rw [List.length_eq_length_filter_add (fun e => !(sh.entries e).dead)]
  simp only [live, dead, Bool.not_not]

theorem Accounts.nodup_live (accounts : sh.Accounts) : sh.live.Nodup := accounts.nodup.filter _

theorem Accounts.nodup_ringOf (accounts : sh.Accounts) : (sh.ringOf b).Nodup :=
  accounts.nodup_live.filter _

namespace Spared

theorem refl (sh : Shard) : Spared sh sh :=
  ⟨rfl, rfl, rfl, rfl, rfl, rfl, rfl, fun _ => rfl, fun _ => rfl, fun _ => ⟨rfl, rfl, rfl⟩⟩

theorem trans (first : Spared sh sh') (second : Spared sh' sh'') : Spared sh sh'' where
  fifo := second.fifo.trans first.fifo
  fifoHead := second.fifoHead.trans first.fifoHead
  conns := second.conns.trans first.conns
  bufs := second.bufs.trans first.bufs
  next := second.next.trans first.next
  maxBytes := second.maxBytes.trans first.maxBytes
  maxPerSubject := second.maxPerSubject.trans first.maxPerSubject
  subjects h := (second.subjects h).trans (first.subjects h)
  kept alive := by
    have same := second.kept alive
    rw [same]
    exact first.kept (same ▸ alive)
  fixed e := by
    obtain ⟨size, buf, conn⟩ := second.fixed e
    obtain ⟨size', buf', conn'⟩ := first.fixed e
    exact ⟨size.trans size', buf.trans buf', conn.trans conn'⟩

theorem waiting (spared : Spared sh sh') : sh'.waiting = sh.waiting := by
  rw [Shard.waiting, spared.fifo, spared.fifoHead, Shard.waiting]

theorem size (spared : Spared sh sh') : sh'.size = sh.size := by
  funext e
  rw [Shard.size, (spared.fixed e).1, Shard.size]

theorem ofConn (spared : Spared sh sh') (h : Ref) (w : Ref → Int) :
    sh'.ofConn h w = sh.ofConn h w := by
  funext e
  rw [Shard.ofConn, (spared.fixed e).2.2, Shard.ofConn]

theorem holds (spared : Spared sh sh') : sh'.Holds c s h b ↔ sh.Holds c s h b := by
  constructor
  · intro ⟨conn, ring⟩
    exact ⟨spared.conns ▸ conn, spared.subjects h ▸ ring⟩
  · intro ⟨conn, ring⟩
    exact ⟨spared.conns.symm ▸ conn, (spared.subjects h).symm ▸ ring⟩

end Spared

theorem kill_spared (sh : Shard) (e : Ref) : Spared sh (sh.kill e) := by
  simp only [kill]
  split
  · exact .refl sh
  · refine ⟨rfl, rfl, rfl, rfl, rfl, rfl, rfl, fun h => ?_, fun {x} alive => ?_, fun x => ?_⟩
    · simp only [Function.update_apply]
      split
      · rename_i same
        rw [same]
      · rfl
    · simp only [Function.update_apply] at alive ⊢
      split at alive
      · cases alive
      · rename_i other
        rw [if_neg other]
    · simp only [Function.update_apply]
      split
      · rename_i same
        rw [same]
        exact ⟨rfl, rfl, rfl⟩
      · exact ⟨rfl, rfl, rfl⟩

theorem kill_live (sh : Shard) (e : Ref) : (sh.kill e).live = sh.live.filter (· ≠ e) := by
  rw [live, (sh.kill_spared e).waiting, live, List.filter_filter]
  refine List.filter_congr fun x _ => ?_
  cases dead : (sh.entries e).dead with
  | true =>
    simp only [kill, dead, ↓reduceIte]
    by_cases same : x = e
    · simp only [same, dead, Bool.not_true, Bool.and_false]
    · simp only [ne_eq, same, not_false_eq_true, decide_true, Bool.true_and]
  | false =>
    simp only [kill, dead, Bool.false_eq_true, ↓reduceIte, Function.update_apply]
    by_cases same : x = e
    · simp only [same, ↓reduceIte, Bool.not_true, ne_eq, not_true_eq_false, decide_false,
        Bool.false_and]
    · simp only [same, ↓reduceIte, ne_eq, not_false_eq_true, decide_true, Bool.true_and]

/-- A lone kill keeps the counters in step with the live entries. -/
theorem Accounts.kill (accounts : sh.Accounts) (waits : e ∈ sh.waiting) : (sh.kill e).Accounts := by
  cases breathing : (sh.entries e).dead with
  | true =>
    simp only [Shard.kill, breathing, ↓reduceIte]
    exact accounts
  | false =>
    have spared := sh.kill_spared e
    have removed (w : Ref → Int) :=
      weigh_remove w accounts.nodup_live (mem_live.mpr ⟨waits, breathing⟩)
    have share (h : Ref) (w : Ref → Int) :
        weigh (sh.ofConn h w) (sh.live.filter (· ≠ e)) =
          weigh (sh.ofConn h w) sh.live - if (sh.entries e).conn = h then w e else 0 :=
      removed (sh.ofConn h w)
    constructor
    · rw [spared.fifo, spared.fifoHead]
      exact accounts.head
    · rw [spared.fifo, spared.fifoHead, spared.waiting]
      exact accounts.slots
    · rw [spared.waiting]
      exact accounts.nodup
    · rw [kill_live, spared.size, removed, ← accounts.bytes]
      simp only [Shard.kill, breathing, Bool.false_eq_true, ↓reduceIte, size]
    · rw [kill_live, removed, ← accounts.count]
      simp only [Shard.kill, breathing, Bool.false_eq_true, ↓reduceIte]
    · intro c h found
      rw [spared.conns] at found
      rw [kill_live, spared.size, spared.ofConn, share, ← accounts.histBytes found]
      simp only [Shard.kill, breathing, Bool.false_eq_true, ↓reduceIte, Function.update_apply,
        eq_comm (a := h)]
      split
      · rename_i here
        rw [here]
        rfl
      · omega
    · intro c h found
      rw [spared.conns] at found
      rw [kill_live, spared.ofConn, share, ← accounts.histCount found]
      simp only [Shard.kill, breathing, Bool.false_eq_true, ↓reduceIte, Function.update_apply,
        eq_comm (a := h)]
      split
      · rename_i here
        rw [here]
      · omega

/-- The entries of a list killed one after the other. -/
theorem killed_spec {l : List Ref} (accounts : sh.Accounts) (waits : ∀ e ∈ l, e ∈ sh.waiting) :
    Spared sh (l.foldl Shard.kill sh) ∧ (l.foldl Shard.kill sh).Accounts ∧
      (l.foldl Shard.kill sh).live = sh.live.filter (· ∉ l) := by
  induction l generalizing sh with
  | nil =>
    refine ⟨.refl sh, accounts, ?_⟩
    simp only [List.foldl_nil, List.not_mem_nil, not_false_eq_true, decide_true, List.filter_true]
  | cons e l ih =>
    have rest : ∀ x ∈ l, x ∈ (sh.kill e).waiting := by
      intro x member
      rw [(sh.kill_spared e).waiting]
      exact waits x (List.mem_cons_of_mem _ member)
    obtain ⟨spared, kept, lives⟩ := ih (accounts.kill (waits e List.mem_cons_self)) rest
    refine ⟨(sh.kill_spared e).trans spared, kept, ?_⟩
    rw [List.foldl_cons, lives, kill_live, List.filter_filter]
    refine List.filter_congr fun x _ => ?_
    simp only [List.mem_cons, not_or, ne_eq, Bool.decide_and, Bool.and_comm]

/-- A kill leaves one dead entry more in the FIFO at most. -/
theorem dead_killed {l : List Ref} (accounts : sh.Accounts) (waits : ∀ e ∈ l, e ∈ sh.waiting) :
    (l.foldl Shard.kill sh).dead.length ≤ sh.dead.length + l.length := by
  obtain ⟨spared, _, lives⟩ := killed_spec accounts waits
  have before := sh.length_waiting
  have after := (l.foldl Shard.kill sh).length_waiting
  have split := List.length_eq_length_filter_add (l := sh.live) (· ∉ l)
  have few : (sh.live.filter fun e => !decide (e ∉ l)).length ≤ l.length := by
    apply List.Subperm.length_le
    apply List.subperm_of_subset (accounts.nodup_live.filter _)
    intro e member
    simpa using (List.mem_filter.mp member).2
  rw [spared.waiting, lives] at after
  omega

/-- A step that only takes away keeps the wiring of what it leaves. -/
theorem Wiring.less (wiring : sh.Wiring) (next : sh'.next = sh.next)
    (waits : ∀ {e}, e ∈ sh'.waiting → e ∈ sh.waiting)
    (conns : ∀ {c h}, sh'.conns.lookup c = some h → sh.conns.lookup c = some h)
    (holds : ∀ {c s h b}, sh'.Holds c s h b → sh.Holds c s h b)
    (ring : ∀ {c s h b}, sh'.Holds c s h b → (sh'.bufs b).toList = sh'.ringOf b)
    (lives : ∀ {e}, e ∈ sh'.live → e ∈ sh.live ∧ sh'.entries e = sh.entries e)
    (keeps : ∀ {e c s}, e ∈ sh'.live → sh.Holds c s (sh.entries e).conn (sh.entries e).buf →
      sh'.Holds c s (sh.entries e).conn (sh.entries e).buf) : sh'.Wiring where
  fresh waiting := next ▸ wiring.fresh (waits waiting)
  freshHist found := next ▸ wiring.freshHist (conns found)
  freshBuf held := next ▸ wiring.freshBuf (holds held)
  oneHist first second := wiring.oneHist (conns first) (conns second)
  oneBuf first second := wiring.oneBuf (holds first) (holds second)
  ring := ring
  home alive := by
    obtain ⟨old, same⟩ := lives alive
    obtain ⟨c, r, record, size, held⟩ := wiring.home old
    rw [same]
    exact ⟨c, r, record, size, keeps alive held⟩

/-- A ring gives up its head, which is killed. -/
theorem retire_spec {rest : List Ref} {buf : SubjectBuf Ref} (accounts : sh.Accounts)
    (wiring : sh.Wiring) (held : sh.Holds c s h b) (ring : (sh.bufs b).toList = e :: rest)
    (left : buf.toList = rest) :
    ((sh.setBuf b buf).kill e).Accounts ∧ ((sh.setBuf b buf).kill e).Wiring ∧
      ((sh.setBuf b buf).kill e).live = sh.live.filter (· ≠ e) := by
  have onRing : sh.ringOf b = e :: rest := (wiring.ring held).symm.trans ring
  obtain ⟨alive, home⟩ := mem_ringOf.mp (onRing ▸ List.mem_cons_self : e ∈ sh.ringOf b)
  have quiet : (sh.setBuf b buf).Accounts := { accounts with }
  have spared := (sh.setBuf b buf).kill_spared e
  have lives : ((sh.setBuf b buf).kill e).live = sh.live.filter (· ≠ e) :=
    kill_live (sh.setBuf b buf) e
  refine ⟨quiet.kill (mem_live.mp alive).1, ?_, lives⟩
  refine wiring.less spared.next (fun waits => spared.waiting ▸ waits)
    (fun found => spared.conns ▸ found) (fun held' => ⟨(spared.holds.mp held').1, (spared.holds.mp held').2⟩)
    ?_ ?_ (fun _ held' => spared.holds.mpr ⟨held'.1, held'.2⟩)
  · intro c' s' h' b' held'
    have before : sh.Holds c' s' h' b' := ⟨(spared.holds.mp held').1, (spared.holds.mp held').2⟩
    have thinned : ((sh.setBuf b buf).kill e).ringOf b' = (sh.ringOf b').filter (· ≠ e) := by
      rw [ringOf, lives, ringOf, List.filter_comm]
      refine congrArg _ (List.filter_congr fun x _ => ?_)
      rw [(spared.fixed x).2.1]
      rfl
    rw [spared.bufs, thinned]
    simp only [setBuf, Function.update_apply]
    split
    · rename_i same
      have apart := (List.nodup_cons.mp (onRing ▸ accounts.nodup_ringOf : (e :: rest).Nodup)).1
      have others : rest.filter (· ≠ e) = rest :=
        List.filter_eq_self.mpr fun x member => decide_eq_true fun same => apart (same ▸ member)
      rw [left, same, onRing, List.filter_cons_of_neg (by simp), others]
    · rename_i other
      rw [wiring.ring before]
      apply Eq.symm
      apply List.filter_eq_self.mpr
      intro x member
      apply decide_eq_true
      intro same
      exact other ((mem_ringOf.mp member).2.symm.trans (same ▸ home))
  · intro x alive'
    have breathing := (mem_live.mp alive').2
    rw [lives] at alive'
    exact ⟨List.mem_of_mem_filter alive', spared.kept breathing⟩

end Shard
end NatsExplorer.History
