import NatsExplorer.History.MemStoreSound

/-! What the store holds of a subject, oldest first, and what an operation does
to it: an append adds its record at the end, and everything else only takes
records away from the front. So the store always holds the newest of what was
appended since the subject was last dropped. -/
namespace NatsExplorer.History
open Go

namespace Shard
variable {sh sh' sh'' : Shard} {e b h : Ref} {c s : Str}

def records (sh : Shard) (b : Ref) : List Record :=
  (sh.bufs b).toList.filterMap fun e => (sh.entries e).record

def contents (sh : Shard) (connID subject : Str) : List Record :=
  match sh.conns.lookup connID with
  | none => []
  | some h =>
    match (sh.hists h).subjects.lookup subject with
    | none => []
    | some b => sh.records b

theorem Holds.contents (held : sh.Holds c s h b) : sh.contents c s = sh.records b := by
  simp only [Shard.contents, held.conn, held.ring]

theorem contents_cases (sh : Shard) (c s : Str) :
    (∃ h b, sh.Holds c s h b) ∨ (sh.contents c s = [] ∧ ∀ h b, ¬ sh.Holds c s h b) := by
  cases conn : sh.conns.lookup c with
  | none =>
    refine Or.inr ⟨by simp only [contents, conn], fun h b held => ?_⟩
    rw [held.conn] at conn
    cases conn
  | some h =>
    cases ring : (sh.hists h).subjects.lookup s with
    | none =>
      refine Or.inr ⟨by simp only [contents, conn, ring], fun h' b held => ?_⟩
      have same := held.conn
      rw [conn, Option.some.injEq] at same
      subst same
      rw [held.ring] at ring
      cases ring
    | some b => exact Or.inl ⟨h, b, conn, ring⟩

/-- What is held was held, with fewer entries at the front of its rings. -/
structure Shed (sh sh' : Shard) : Prop where
  holds {c s : Str} {h b : Ref} : sh'.Holds c s h b → sh.Holds c s h b
  rings (b : Ref) : (sh'.bufs b).toList <:+ (sh.bufs b).toList
  kept {e : Ref} : (sh'.entries e).dead = false → sh'.entries e = sh.entries e

namespace Shed

theorem refl (sh : Shard) : Shed sh sh := ⟨id, fun _ => List.suffix_rfl, fun _ => rfl⟩

theorem trans (first : Shed sh sh') (second : Shed sh' sh'') : Shed sh sh'' where
  holds held := first.holds (second.holds held)
  rings b := (second.rings b).trans (first.rings b)
  kept alive := by
    have same := second.kept alive
    rw [same]
    exact first.kept (same ▸ alive)

theorem of_spared (spared : Spared sh sh') : Shed sh sh' where
  holds := spared.holds.mp
  rings _ := spared.bufs ▸ List.suffix_rfl
  kept := spared.kept

theorem contents (shed : Shed sh sh') (wiring : sh'.Wiring) (c s : Str) :
    sh'.contents c s <:+ sh.contents c s := by
  rcases sh'.contents_cases c s with ⟨h, b, held⟩ | ⟨none, _⟩
  · rw [held.contents, (shed.holds held).contents, records, records]
    have same : (sh'.bufs b).toList.filterMap (fun e => (sh'.entries e).record) =
        (sh'.bufs b).toList.filterMap fun e => (sh.entries e).record := by
      apply List.filterMap_congr
      intro e member
      rw [wiring.ring held] at member
      rw [shed.kept (mem_live.mp (mem_ringOf.mp member).1).2]
    rw [same]
    exact (shed.rings b).filterMap _
  · rw [none]
    exact List.nil_suffix

end Shed

theorem popHead_shed {buf : SubjectBuf Ref} (popped : (sh.bufs b).popHead = some (e, buf)) :
    Shed sh (sh.setBuf b buf) where
  holds held := ⟨held.conn, held.ring⟩
  rings b' := by
    simp only [setBuf, Function.update_apply]
    split
    · rename_i same
      subst same
      exact SubjectBuf.popHead_suffix popped
    · exact List.suffix_rfl
  kept _ := rfl

theorem kill_shed (sh : Shard) (e : Ref) : Shed sh (sh.kill e) := .of_spared (sh.kill_spared e)

theorem cap_shed (done : sh.cap b = .ok sh') : Shed sh sh' := by
  simp only [cap] at done
  split at done
  · split at done
    · cases done
    · rename_i popped
      cases done
      exact (popHead_shed popped).trans (kill_shed _ _)
  · cases done
    exact .refl sh

theorem skip_shed (sh : Shard) : Shed sh sh.skip where
  holds held := ⟨held.conn, held.ring⟩
  rings _ := List.suffix_rfl
  kept _ := rfl

theorem evict_shed {fuel : Nat} (done : sh.evict fuel = .ok sh') : Shed sh sh' := by
  induction fuel generalizing sh with
  | zero =>
    cases done
    exact .refl _
  | succ fuel ih =>
    simp only [evict] at done
    split at done
    · split at done
      · cases done
      · split at done
        · exact (skip_shed sh).trans (ih done)
        · split at done
          · cases done
          · rename_i popped
            split at done
            · cases done
            · have first : Shed sh.skip (sh.skip.setBuf _ _) := popHead_shed popped
              exact (skip_shed sh).trans (first.trans ((kill_shed _ _).trans (ih done)))
    · cases done
      exact .refl _

theorem compact_shed (sh : Shard) : Shed sh sh.compact := by
  simp only [compact]
  split
  · exact ⟨fun held => ⟨held.conn, held.ring⟩, fun _ => List.suffix_rfl, fun _ => rfl⟩
  · exact .refl sh

theorem killed_shed (l : List Ref) (sh : Shard) : Shed sh (l.foldl kill sh) := by
  induction l generalizing sh with
  | nil => exact .refl sh
  | cons e l ih => exact (kill_shed sh e).trans (ih (sh.kill e))

theorem erase_lookup {V : Type} {m : Map Str V} {k k' : Str} {v : V}
    (found : (m.erase k).lookup k' = some v) : m.lookup k' = some v := by
  have other : k' ≠ k := by
    rintro rfl
    rw [AList.lookup_erase] at found
    cases found
  rwa [AList.lookup_erase_ne other] at found

theorem cut_shed (h : Ref) (sh : Shard) (ring : (_ : Str) × Ref) : Shed sh (sh.cut h ring) := by
  apply (killed_shed (sh.bufs ring.snd).toList sh).trans
  refine ⟨fun held => ⟨held.conn, ?_⟩, fun _ => List.suffix_rfl, fun _ => rfl⟩
  have found := held.ring
  simp only [cut, killAll, Function.update_apply] at found
  split at found
  · rename_i here
    rw [here]
    exact erase_lookup found
  · exact found

theorem close_shed (sh : Shard) (c : Str) : Shed sh { sh with conns := sh.conns.erase c } where
  holds held := ⟨erase_lookup held.conn, held.ring⟩
  rings _ := List.suffix_rfl
  kept _ := rfl

theorem dropWhere_shed (rt : Runtime) (matching : Str → Bool) (sh : Shard) (c : Str) :
    Shed sh (sh.dropWhere rt matching c).1 := by
  have cuts (h : Ref) (going : List ((_ : Str) × Ref)) (sh : Shard) :
      Shed sh (going.foldl (cut h) sh) := by
    induction going generalizing sh with
    | nil => exact .refl sh
    | cons ring going ih => exact (cut_shed h sh ring).trans (ih _)
  simp only [dropWhere]
  split
  · exact .refl sh
  · simp only
    split
    · exact (cuts _ _ sh).trans (close_shed _ c)
    · exact cuts _ _ sh

theorem drop_shed (rt : Runtime) (sh : Shard) (c : Str) : Shed sh (sh.drop rt c) := by
  simp only [drop]
  split
  · exact .refl sh
  · rw [killAll_eq]
    exact (killed_shed _ sh).trans (close_shed _ c)

theorem clear_shed (sh : Shard) : Shed sh sh.clear where
  holds held := by
    have none := held.conn
    simp only [clear, AList.lookup_empty] at none
    cases none
  rings _ := List.suffix_rfl
  kept _ := rfl

theorem connOf_contents (wiring : sh.Wiring) (c c' s' : Str) :
    (sh.connOf c).1.contents c' s' = sh.contents c' s' := by
  simp only [connOf]
  cases known : sh.conns.lookup c with
  | some h => rfl
  | none =>
    simp only [contents]
    by_cases same : c' = c
    · subst same
      rw [AList.lookup_insert, known]
      simp only [Function.update_self, AList.lookup_empty]
    · rw [AList.lookup_insert_ne same]
      cases found : sh.conns.lookup c' with
      | none => rfl
      | some h' =>
        simp only [Function.update_of_ne (wiring.freshHist found).ne]
        rfl

theorem bufOf_contents (wiring : sh.Wiring) (known : sh.conns.lookup c = some h) (s c' s' : Str) :
    (sh.bufOf h s).1.contents c' s' = sh.contents c' s' := by
  simp only [bufOf]
  cases ring : (sh.hists h).subjects.lookup s with
  | some b => rfl
  | none =>
    simp only [contents]
    cases found : sh.conns.lookup c' with
    | none => rfl
    | some h' =>
      have old {b' : Ref} (held : (sh.hists h').subjects.lookup s' = some b') :
          records { sh with
            bufs := Function.update sh.bufs sh.next .empty
            hists := Function.update sh.hists h
              { sh.hists h with subjects := (sh.hists h).subjects.insert s sh.next }
            next := sh.next + 1 } b' = sh.records b' := by
        have below := wiring.freshBuf ⟨found, held⟩
        simp only [records, Function.update_of_ne below.ne]
      by_cases here : h' = h
      · subst here
        simp only [Function.update_self]
        by_cases same : s' = s
        · subst same
          rw [AList.lookup_insert, ring]
          simp only [records, Function.update_self]
          rfl
        · rw [AList.lookup_insert_ne same]
          cases held : (sh.hists h').subjects.lookup s' with
          | none => rfl
          | some b' => exact old held
      · simp only [Function.update_of_ne here]
        cases held : (sh.hists h').subjects.lookup s' with
        | none => rfl
        | some b' => exact old held

theorem enter_contents {r : Record} (wiring : sh.Wiring)
    (held : sh.Holds c r.subject h b) (c' s' : Str) :
    (sh.enter h b r).contents c' s' =
      sh.contents c' s' ++ if c' = c ∧ s' = r.subject then [r] else [] := by
  rcases sh.contents_cases c' s' with ⟨h', b', held'⟩ | ⟨none, notHeld⟩
  · have entered := (enter_holds sh h b r).mpr held'
    have old : (sh.bufs b').toList.filterMap (fun e => ((sh.enter h b r).entries e).record) =
        sh.records b' := by
      apply List.filterMap_congr
      intro e member
      rw [wiring.ring held'] at member
      rw [enter_entry h b r (wiring.fresh (mem_live.mp (mem_ringOf.mp member).1).1)]
    rw [entered.contents, held'.contents, records, ← old]
    by_cases here : b' = b
    · subst here
      obtain ⟨rfl, subject⟩ := wiring.oneBuf held' held
      rw [if_pos ⟨wiring.oneHist held'.conn held.conn, subject⟩]
      simp only [enter, setBuf, Function.update_self, SubjectBuf.toList_push, List.filterMap_append,
        List.filterMap_cons, List.filterMap_nil]
    · have other : ¬ (c' = c ∧ s' = r.subject) := by
        rintro ⟨rfl, rfl⟩
        have conn := held.conn
        rw [held'.conn, Option.some.injEq] at conn
        subst conn
        have ring := held.ring
        rw [held'.ring, Option.some.injEq] at ring
        exact here ring
      rw [if_neg other, List.append_nil]
      simp only [enter, setBuf, Function.update_of_ne here]
  · have other : ¬ (c' = c ∧ s' = r.subject) := by
      rintro ⟨rfl, rfl⟩
      exact notHeld h b held
    rcases (sh.enter h b r).contents_cases c' s' with ⟨h', b', held'⟩ | ⟨none', _⟩
    · exact absurd ((enter_holds sh h b r).mp held') (notHeld h' b')
    · rw [none, none', if_neg other]
      rfl

/-- An append adds to its subject; what else it does takes from the front. -/
theorem append_contents {r : Record} (sound : sh.Sound) (done : sh.append c r = .ok sh')
    (c' s' : Str) :
    sh'.contents c' s' <:+ sh.contents c' s' ++ if c' = c ∧ s' = r.subject then [r] else [] := by
  obtain ⟨left, same, appended⟩ := append_spec sound c r
  rw [done, Except.ok.injEq] at same
  subst same
  obtain ⟨accounts, wiring, capped, known, _⟩ :=
    connOf_spec sound.accounts sound.wiring sound.capped c
  have contents := bufOf_contents wiring known r.subject c' s'
  rw [connOf_contents sound.wiring c] at contents
  obtain ⟨accounts, wiring, _, held, _⟩ := bufOf_spec accounts wiring capped known r.subject
  rw [← contents, ← enter_contents wiring held]
  simp only [append] at done
  split at done
  · cases done
  · rename_i capped
    split at done
    · cases done
    · rename_i evicted
      cases done
      have shed := (cap_shed capped).trans ((evict_shed evicted).trans (compact_shed _))
      exact shed.contents appended.sound.wiring c' s'

end Shard

namespace MemStore

/-- What an operation adds to a subject. -/
def Op.brings (op : Op) (connID subject : Str) : List Record :=
  match op with
  | .append c r => if connID = c ∧ subject = r.subject then [r] else []
  | _ => []

variable {maxBytes maxPerSubject shards : Nat} {s s' : MemStore}

/-- Each shard holds the newest of what it held before and what comes to it. -/
theorem step_contents (kept : s.Kept maxBytes maxPerSubject shards) (some : 0 < shards) {op : Op}
    (done : s.step op = .ok s') :
    ∀ sh' ∈ s'.shards, ∃ sh ∈ s.shards, ∀ connID subject, ∃ new,
      new.Sublist (op.brings connID subject) ∧
        sh'.contents connID subject <:+ sh.contents connID subject ++ new := by
  have later : s'.Kept maxBytes maxPerSubject shards := by
    obtain ⟨s'', same, kept'⟩ := step_kept kept some op
    rw [done, Except.ok.injEq] at same
    exact same ▸ kept'
  have shedding {f : Shard → Shard} (each : ∀ sh, Shard.Shed sh (f sh))
      (shards : s'.shards = s.shards.map f) : ∀ sh' ∈ s'.shards, ∃ sh ∈ s.shards,
        ∀ connID subject, ∃ new, new.Sublist (op.brings connID subject) ∧
          sh'.contents connID subject <:+ sh.contents connID subject ++ new := by
    intro sh' member
    have wiring := (later.sound member).wiring
    rw [shards] at member
    obtain ⟨sh, old, rfl⟩ := List.mem_map.mp member
    refine ⟨sh, old, fun c subject => ⟨[], List.nil_sublist _, ?_⟩⟩
    rw [List.append_nil]
    exact (each sh).contents wiring c subject
  cases op with
  | append c r =>
    have inside := shardOf_lt (kept.shards.symm ▸ some) r.subject r.hash
    have listed := List.getElem_mem inside
    obtain ⟨sh', appended, _⟩ := Shard.append_spec (kept.sound listed) c r
    simp only [step, append, List.getElem?_eq_getElem inside, appended, Except.ok.injEq] at done
    subst done
    intro sh member
    rcases List.mem_or_eq_of_mem_set member with old | rfl
    · have same (c subject : Str) : sh.contents c subject <:+ sh.contents c subject ++ [] :=
        (List.append_nil (sh.contents c subject)).symm ▸ List.suffix_rfl
      exact ⟨sh, old, fun c subject => ⟨[], List.nil_sublist _, same c subject⟩⟩
    · exact ⟨_, listed, fun connID subject => ⟨_, List.Sublist.refl _,
        Shard.append_contents (kept.sound listed) appended connID subject⟩⟩
  | dropSubjects rt c subjects =>
    simp only [step, dropSubjects, Except.ok.injEq] at done
    split at done
    · exact shedding (fun sh => .refl sh) (by rw [← done, List.map_id'])
    · exact shedding (fun sh => Shard.dropWhere_shed rt _ sh c) (by rw [← done])
  | dropMatching rt c subject branch =>
    simp only [step, dropMatching, Except.ok.injEq] at done
    split at done
    · exact shedding (fun sh => .refl sh) (by rw [← done, List.map_id'])
    · simp only [List.map_map] at done
      exact shedding (fun sh => Shard.dropWhere_shed rt _ sh c) (by rw [← done]; rfl)
  | drop rt c =>
    simp only [step, drop, Except.ok.injEq] at done
    exact shedding (fun sh => Shard.drop_shed rt sh c) (by rw [← done])
  | clear =>
    simp only [step, clear, Except.ok.injEq] at done
    exact shedding Shard.clear_shed (by rw [← done])

end MemStore
end NatsExplorer.History
