import NatsExplorer.Update.Updater

/-! What is left of the installation and of its previous version when one operation on the
files fails, wherever that is. -/
namespace NatsExplorer.Update
open Go Files

section Faults
variable {N D : Type} [DecidableEq N] {fails : Faults N} {source target name : N} {fs : FS N D} {directory : Bool} {e : String}

omit [DecidableEq N] in
/-- Next to one that fails no other does. -/
theorem quiet_of {a b : Operation N} (once : AtMostOne fails) (failed : fails a ≠ none) (other : b ≠ a) : fails b = none := by
  by_contra also
  exact other (once b a also failed)

theorem rename_failed (failed : rename fails directory source target fs = .error e) (present : (fs source).isSome = true)
    (free : directory = false ∨ fs target = none) : fails (.rename source target) ≠ none := by
  intro quiet
  rw [rename_done quiet present free] at failed
  cases failed

/-- A removal that leaves something was made to fail. -/
theorem attempt_remove_gone (fails : Faults N) (name : N) (fs : FS N D) :
    attempt (remove fails name fs) fs name = none ∨ fails (.remove name) ≠ none := by
  by_cases quiet : fails (.remove name) = none
  · left
    unfold remove
    rw [guarded_none quiet]
    cases held : fs name with
    | none => exact held
    | some data => exact Function.update_self ..
  · exact Or.inr quiet

end Faults

variable {C : Type} {fails : Faults Name} {fs : Disk C} {r : C}

/-- What a replacement comes to, where a failing step may slip. -/
structure Replaced (slips : Prop) (fs : Disk C) (r : C) (result : Option String × Disk C) : Prop where
  note : result.2 .note = fs .note
  done : result.1 = none → result.2 .install = some (.build r) ∧ result.2 .previous = fs .install
  failed : result.1 ≠ none → result.2 .install = fs .install ∧
    (¬ slips → result.2 .previous = none ∨ result.2 .previous = fs .previous)

/-- The old file is kept, by a link or by a copy. -/
theorem keepOld_keeps (once : AtMostOne fails) (installed : (fs .install).isSome = true)
    (free : fs .previous = none ∨ fails (.remove .previous) ≠ none) : keepOld fails fs .previous = fs .install := by
  obtain ⟨old, held⟩ := Option.isSome_iff_exists.mp installed
  unfold keepOld
  cases linked : link fails .install .previous fs with
  | ok fs' =>
    rw [link_ok linked]
    exact Function.update_self ..
  | error e =>
    have cause : fails (.link .install .previous) ≠ none ∨ fails (.remove .previous) ≠ none := by
      by_cases quiet : fails (.link .install .previous) = none
      · refine Or.inr (free.resolve_left fun none => ?_)
        unfold link at linked
        rw [guarded_none quiet, held, none] at linked
        cases linked
      · exact Or.inl quiet
    have others (op : Operation Name) (first : op ≠ .link .install .previous) (second : op ≠ .remove .previous) :
        fails op = none := by
      rcases cause with failed | failed
      · exact quiet_of once failed first
      · exact quiet_of once failed second
    have opened : Files.read fails .install fs = .ok old := by
      unfold Files.read
      rw [guarded_none (others (.read .install) (by decide) (by decide)), held]
    have written : write fails .copy old fs = .ok (Function.update fs .copy (some old)) :=
      guarded_none (others (.write .copy) (by decide) (by decide)) _
    have renamed : rename fails false .copy .previous (Function.update fs .copy (some old)) = .ok _ :=
      rename_done (others (.rename .copy .previous) (by decide) (by decide)) rfl (Or.inl rfl)
    dsimp only
    rw [opened]
    dsimp only
    rw [written]
    dsimp only
    rw [renamed, held]
    rfl

theorem replaceFile_replaced (once : AtMostOne fails) (installed : (fs .install).isSome = true) (r : C) :
    Replaced (fails (.rename .update .install) ≠ none) fs r (replaceFile fails r fs) := by
  unfold replaceFile
  cases written : write fails .update (.build r) fs with
  | error e => exact ⟨rfl, nofun, fun _ => ⟨rfl, fun _ => Or.inr rfl⟩⟩
  | ok fs₁ =>
    obtain rfl := write_ok written
    dsimp only
    generalize before : Function.update fs .update (some (Data.build r)) = fs₁
    have gone := attempt_remove_gone fails .previous fs₁
    have frame (name : Name) (other : name ≠ .previous) : attempt (remove fails .previous fs₁) fs₁ name = fs₁ name :=
      attempt_remove .previous fs₁ other
    generalize attempt (remove fails .previous fs₁) fs₁ = fs₂ at gone frame ⊢
    have same (name : Name) (other : name ≠ .previous) (another : name ≠ .copy) : keepOld fails fs₂ name = fs₁ name :=
      (keepOld_frame other another).trans (frame name other)
    have old : fs₂ .install = fs .install := by
      rw [frame .install (by decide), ← before]
      rfl
    have kept : keepOld fails fs₂ .previous = fs .install := by
      rw [← old]
      refine keepOld_keeps once ?_ gone
      rw [old]
      exact installed
    have fresh : keepOld fails fs₂ .update = some (.build r) := by
      rw [same .update (by decide) (by decide), ← before]
      rfl
    have noted : keepOld fails fs₂ .note = fs .note := by
      rw [same .note (by decide) (by decide), ← before]
      rfl
    have stays : keepOld fails fs₂ .install = fs .install := by
      rw [same .install (by decide) (by decide), ← before]
      rfl
    cases renamed : rename fails false .update .install (keepOld fails fs₂) with
    | ok fs₃ =>
      obtain rfl := (rename_ok renamed).2
      exact ⟨noted, fun _ => ⟨fresh, kept⟩, fun failed => absurd rfl failed⟩
    | error e =>
      have slipped := rename_failed renamed (by rw [fresh]; rfl) (Or.inl rfl)
      refine ⟨?_, nofun, fun _ => ⟨?_, fun no => absurd slipped no⟩⟩
      · exact (attempt_remove Name.update _ (by decide)).trans noted
      · exact (attempt_remove Name.update _ (by decide)).trans stays

theorem replaceRunning_replaced (once : AtMostOne fails) (installed : (fs .install).isSome = true) (r : C) :
    Replaced False fs r (replaceRunning fails r fs) := by
  unfold replaceRunning
  cases written : write fails .update (.build r) fs with
  | error e => exact ⟨rfl, nofun, fun _ => ⟨rfl, fun _ => Or.inr rfl⟩⟩
  | ok fs₁ =>
    obtain rfl := write_ok written
    dsimp only
    generalize before : Function.update fs .update (some (Data.build r)) = fs₁
    have gone := @attempt_remove_self _ _ _ fails .previous fs₁
    have frame (name : Name) (other : name ≠ .previous) : attempt (remove fails .previous fs₁) fs₁ name = fs₁ name :=
      attempt_remove .previous fs₁ other
    generalize attempt (remove fails .previous fs₁) fs₁ = fs₂ at gone frame ⊢
    have old : fs₂ .install = fs .install := by
      rw [frame .install (by decide), ← before]
      rfl
    have fresh : fs₂ .update = some (.build r) := by
      rw [frame .update (by decide), ← before]
      rfl
    have noted : fs₂ .note = fs .note := by
      rw [frame .note (by decide), ← before]
      rfl
    have kept : fs₂ .previous = none ∨ fs₂ .previous = fs .previous := by
      rw [← before] at gone
      exact gone
    cases aside : rename fails false .install .previous fs₂ with
    | error e =>
      have cleared (name : Name) (other : name ≠ .update) : attempt (remove fails .update fs₂) fs₂ name = fs₂ name :=
        attempt_remove .update fs₂ other
      refine ⟨(cleared .note (by decide)).trans noted, nofun, fun _ => ⟨(cleared .install (by decide)).trans old, fun _ => ?_⟩⟩
      dsimp only
      rw [cleared .previous (by decide)]
      exact kept
    | ok fs₃ =>
      have moved := rename_moved (by decide) aside
      have aside : fs₃ .previous = fs .install := moved.there.trans old
      have fresh : fs₃ .update = some (.build r) := (moved.others .update (by decide) (by decide)).trans fresh
      have noted : fs₃ .note = fs .note := (moved.others .note (by decide) (by decide)).trans noted
      dsimp only
      cases renamed : rename fails false .update .install fs₃ with
      | ok fs₄ =>
        obtain rfl := (rename_ok renamed).2
        exact ⟨noted, fun _ => ⟨fresh, aside⟩, fun failed => absurd rfl failed⟩
      | error e =>
        -- The one failing operation is this one, so the old file goes back.
        have cause := rename_failed renamed (by rw [fresh]; rfl) (Or.inl rfl)
        have undone : rename fails false .previous .install fs₃ = .ok _ :=
          rename_done (quiet_of once cause (by decide)) (by rw [aside]; exact installed) (Or.inl rfl)
        rw [undone]
        dsimp only [attempt]
        refine ⟨?_, nofun, fun _ => ⟨?_, fun _ => Or.inl ?_⟩⟩
        · exact (attempt_remove Name.update _ (by decide)).trans noted
        · exact (attempt_remove Name.update _ (by decide)).trans aside
        · exact (attempt_remove Name.update _ (by decide)).trans rfl

theorem replaceBundle_replaced (once : AtMostOne fails) (installed : (fs .install).isSome = true) (app : C) :
    Replaced False fs app (replaceBundle fails app fs) := by
  have cleared (fs' : Disk C) (name : Name) (other : name ≠ .update) :
      attempt (removeAll fails .update fs') fs' name = fs' name := attempt_removeAll .update fs' other
  have early {fs' : Disk C} {e : String} (note : fs' .note = fs .note) (install : fs' .install = fs .install)
      (previous : fs' .previous = none ∨ fs' .previous = fs .previous) :
      Replaced False fs app (some e, attempt (removeAll fails .update fs') fs') := by
    refine ⟨(cleared fs' .note (by decide)).trans note, nofun, fun _ =>
      ⟨(cleared fs' .install (by decide)).trans install, fun _ => ?_⟩⟩
    dsimp only
    rw [cleared fs' .previous (by decide)]
    exact previous
  unfold replaceBundle
  cases written : write fails .update (.build app) fs with
  | error e => exact early rfl rfl (Or.inr rfl)
  | ok fs₁ =>
    obtain rfl := write_ok written
    dsimp only
    cases removed : removeAll fails .previous (Function.update fs .update (some (Data.build app))) with
    | error e => exact early rfl rfl (Or.inr rfl)
    | ok fs₂ =>
      obtain rfl := removeAll_ok removed
      dsimp only
      generalize before : Function.update (Function.update fs .update (some (Data.build app))) .previous none = fs₂
      have old : fs₂ .install = fs .install := by
        rw [← before]
        rfl
      have fresh : fs₂ .update = some (.build app) := by
        rw [← before]
        rfl
      have noted : fs₂ .note = fs .note := by
        rw [← before]
        rfl
      have none : fs₂ .previous = none := by
        rw [← before]
        rfl
      cases aside : rename fails true .install .previous fs₂ with
      | error e => exact early noted old (Or.inl none)
      | ok fs₃ =>
        have moved := rename_moved (by decide) aside
        have aside : fs₃ .previous = fs .install := moved.there.trans old
        have fresh : fs₃ .update = some (.build app) := (moved.others .update (by decide) (by decide)).trans fresh
        have noted : fs₃ .note = fs .note := (moved.others .note (by decide) (by decide)).trans noted
        dsimp only
        cases renamed : rename fails true .update .install fs₃ with
        | ok fs₄ =>
          obtain rfl := (rename_ok renamed).2
          refine ⟨?_, fun _ => ⟨?_, ?_⟩, fun failed => absurd rfl failed⟩
          · exact (cleared _ .note (by decide)).trans noted
          · exact (cleared _ .install (by decide)).trans fresh
          · exact (cleared _ .previous (by decide)).trans aside
        | error e =>
          have cause := rename_failed renamed (by rw [fresh]; rfl) (Or.inr moved.gone)
          have undone : rename fails true .previous .install fs₃ = .ok _ :=
            rename_done (quiet_of once cause (by decide)) (by rw [aside]; exact installed) (Or.inr moved.gone)
          rw [undone]
          exact early noted aside (Or.inl rfl)

/-- The step of a replacement that leaves the new previous version under the old note: a
file that is not put in place once the old one is kept. -/
def Slips (kind : Kind) (fails : Faults Name) : Prop :=
  (kind = .appImage ∨ kind = .tarball) ∧ fails (.rename .update .install) ≠ none

theorem Replaced.mono {slips slips' : Prop} {result : Option String × Disk C} (replaced : Replaced slips fs r result)
    (more : slips → slips') : Replaced slips' fs r result :=
  ⟨replaced.note, replaced.done, fun failed =>
    ⟨(replaced.failed failed).1, fun no => (replaced.failed failed).2 fun slipped => no (more slipped)⟩⟩

theorem put_replaced [Packages C] {kind : Kind} {file : C} (once : AtMostOne fails) (installed : (fs .install).isSome = true)
    (unpacked : Packages.unpack kind file = .ok r) : Replaced (Slips kind fails) fs r (put fails kind file fs) := by
  unfold put
  rw [unpacked]
  cases kind with
  | appImage => exact (replaceFile_replaced once installed r).mono fun slipped => ⟨Or.inl rfl, slipped⟩
  | tarball => exact (replaceFile_replaced once installed r).mono fun slipped => ⟨Or.inr rfl, slipped⟩
  | windows => exact (replaceRunning_replaced once installed r).mono False.elim
  | macApp => exact (replaceBundle_replaced once installed r).mono False.elim

/-- What a swap comes to. When its last step fails, the other version is in place. -/
structure Swapped (fails : Faults Name) (fs : Disk C) (result : Option String × Disk C) : Prop where
  note : result.2 .note = fs .note
  done : result.1 = none →
    (fs .previous).isSome = true ∧ result.2 .install = fs .previous ∧ result.2 .previous = fs .install
  failed : result.1 ≠ none → result.2 .install = fs .install ∧ result.2 .previous = fs .previous ∨
    fails (.rename .swap .previous) ≠ none ∧ result.2 .install = fs .previous ∧ result.2 .previous = none

theorem swapPrevious_swapped (once : AtMostOne fails) (installed : (fs .install).isSome = true)
    (present : (fs .previous).isSome = true ∨ ∀ op, fails op = none) (kind : Kind) :
    Swapped fails fs (swapPrevious fails kind fs) := by
  unfold swapPrevious
  have frame (name : Name) (other : name ≠ .swap) : attempt (removeAll fails .swap fs) fs name = fs name :=
    attempt_removeAll .swap fs other
  generalize attempt (removeAll fails .swap fs) fs = fs₁ at frame
  dsimp only
  cases aside : rename fails (kind = .macApp) .install .swap fs₁ with
  | error e =>
    exact ⟨frame .note (by decide), nofun, fun _ => Or.inl ⟨frame .install (by decide), frame .previous (by decide)⟩⟩
  | ok fs₂ =>
    have moved := rename_moved (by decide) aside
    have waiting : fs₂ .swap = fs .install := moved.there.trans (frame .install (by decide))
    have kept : fs₂ .previous = fs .previous := (moved.others .previous (by decide) (by decide)).trans (frame .previous (by decide))
    have noted : fs₂ .note = fs .note := (moved.others .note (by decide) (by decide)).trans (frame .note (by decide))
    dsimp only
    cases back : rename fails (kind = .macApp) .previous .install fs₂ with
    | error e =>
      have quiet : fails (.rename .swap .install) = none := by
        rcases present with present | quiet
        · have cause := rename_failed back (by rw [kept]; exact present) (Or.inr moved.gone)
          exact quiet_of once cause (by decide)
        · exact quiet _
      have undone : rename fails (kind = .macApp) .swap .install fs₂ = .ok _ :=
        rename_done quiet (by rw [waiting]; exact installed) (Or.inr moved.gone)
      dsimp only
      rw [undone]
      exact ⟨noted, nofun, fun _ => Or.inl ⟨waiting, kept⟩⟩
    | ok fs₃ =>
      have there := (rename_ok back).1
      rw [kept] at there
      have put := rename_moved (by decide) back
      have installs : fs₃ .install = fs .previous := put.there.trans kept
      have waiting : fs₃ .swap = fs .install := (put.others .swap (by decide) (by decide)).trans waiting
      have noted : fs₃ .note = fs .note := (put.others .note (by decide) (by decide)).trans noted
      dsimp only
      cases forth : rename fails (kind = .macApp) .swap .previous fs₃ with
      | error e =>
        have cause := rename_failed forth (by rw [waiting]; exact installed) (Or.inr put.gone)
        exact ⟨noted, nofun, fun _ => Or.inr ⟨cause, installs, put.gone⟩⟩
      | ok fs₄ =>
        obtain rfl := (rename_ok forth).2
        exact ⟨noted, fun _ => ⟨there, installs, waiting⟩, fun failed => absurd rfl failed⟩

namespace Updater
variable [Tables] {Key : Type} [Packages C] [Signatures Key] {carries : C → Str} {u : Updater C Key} {file : C}
  {version : Str}

/-- A previous version is named by the version it carries: by its note and by the status. -/
def Named (carries : C → Str) (u : Updater C Key) : Prop :=
  ∀ c, u.disk .previous = some (.build c) → previousVersion u.disk = carries c ∧ u.previous = carries c

/-- A version as a release has it: it starts with a digit and reads back from a line. -/
def Released (version : Str) : Prop :=
  strings.trimSpace (version ++ ['\n']) = version ∧ ∃ first rest, version = first :: rest ∧ '0' ≤ first ∧ first ≤ '9'

/-- The build in place is the one the updater takes it for. -/
structure Sound (carries : C → Str) (u : Updater C Key) : Prop where
  installed : ∃ c, u.disk .install = some (.build c) ∧ carries c = u.inPlace
  released : Released u.inPlace
  named : Named carries u

/-- What `place` leaves, and the status after it. -/
def placed (u : Updater C Key) (fails : Faults Name) (file : C) (version : Str) : Updater C Key :=
  (u.place fails file version).2.finish version (u.place fails file version).1

omit [Packages C] [Signatures Key] in
/-- A note that is written names the version. -/
theorem noted_version {fs : Disk C} {data : Data C} (present : fs .previous = some data) (released : Released version)
    (quiet : fails (.write .note) = none) : previousVersion (notePrevious fails version fs) = version := by
  have written : write fails .note (.text (version ++ ['\n'])) fs =
      .ok (Function.update fs .note (some (.text (version ++ ['\n'])))) := guarded_none quiet _
  obtain ⟨reads, first, rest, rfl, low, high⟩ := released
  unfold notePrevious
  rw [present]
  dsimp only
  rw [written]
  unfold previousVersion attempt
  dsimp only
  rw [Function.update_of_ne (by decide), present, Function.update_self]
  dsimp only
  rw [reads]
  exact if_pos ⟨low, high⟩

omit [Packages C] [Signatures Key] in
theorem previousVersion_congr {fs fs' : Disk C} (previous : fs' .previous = fs .previous) (note : fs' .note = fs .note) :
    previousVersion fs' = previousVersion fs := by
  unfold previousVersion
  rw [previous, note]

/-- The files of a `place`, as an update under way comes out of it. -/
structure PutKeeps (carries : C → Str) (u : Updater C Key) (fails : Faults Name) (file : C) (version : Str) : Prop where
  complete : (placed u fails file version).disk .install = u.disk .install ∨
    ∃ r, Packages.unpack u.kind file = .ok r ∧ (placed u fails file version).disk .install = some (.build r)
  failed : (u.place fails file version).1 ≠ none → (placed u fails file version).disk .install = u.disk .install
  named : Sound carries u → u.state.state ≠ .ready → fails (.write .note) = none → ¬ Slips u.kind fails →
    Named carries (placed u fails file version)

/-- The files of a rollback, with a previous version to go back to. -/
structure RollbackKeeps (carries : C → Str) (u : Updater C Key) (fails : Faults Name) : Prop where
  complete : (u.rollback fails).2.disk .install = u.disk .install ∨
    (u.disk .previous).isSome = true ∧ (u.rollback fails).2.disk .install = u.disk .previous
  failed : (u.rollback fails).1 ≠ none →
    (u.rollback fails).2.disk .install = u.disk .install ∨ fails (.rename .swap .previous) ≠ none
  named : Sound carries u → fails (.write .note) = none → Named carries (u.rollback fails).2

section Keeps

omit [Signatures Key] in
theorem put_keeps_all (once : AtMostOne fails) (installed : (u.disk .install).isSome = true) :
    PutKeeps carries u fails file version := by
  cases unpacked : Packages.unpack u.kind file with
  | error e =>
    have result : put fails u.kind file u.disk = (some e, u.disk) := by
      unfold put
      rw [unpacked]
    have left : (placed u fails file version).disk = u.disk ∧ (placed u fails file version).previous = u.previous := by
      unfold placed place
      rw [result]
      exact ⟨rfl, rfl⟩
    refine ⟨Or.inl (by rw [left.1]), fun _ => by rw [left.1], fun sound _ _ _ c held => ?_⟩
    rw [left.1, left.2] at *
    exact sound.named c held
  | ok r =>
    have replaced := put_replaced once installed unpacked
    cases result : put fails u.kind file u.disk with
    | mk failure fs =>
      rw [result] at replaced
      cases failure with
      | some e =>
        have left : (placed u fails file version).disk = fs ∧ (placed u fails file version).previous = u.previous := by
          unfold placed place
          rw [result]
          exact ⟨rfl, rfl⟩
        obtain ⟨install, previous⟩ := replaced.failed nofun
        refine ⟨Or.inl (by rw [left.1]; exact install), fun _ => by rw [left.1]; exact install, ?_⟩
        intro sound _ _ held_back c held
        rw [left.1] at held
        rw [left.1, left.2]
        rcases previous held_back with gone | same
        · cases gone.symm.trans held
        · obtain ⟨noted, shown⟩ := sound.named c (same.symm.trans held)
          exact ⟨(previousVersion_congr same replaced.note).trans noted, shown⟩
      | none =>
        have left : (placed u fails file version).disk = notePrevious fails u.current fs ∧
            (placed u fails file version).previous = previousVersion (notePrevious fails u.current fs) := by
          unfold placed place
          rw [result]
          exact ⟨rfl, rfl⟩
        have returned : (u.place fails file version).1 = none := by
          unfold place
          rw [result]
        obtain ⟨install, previous⟩ := replaced.done rfl
        refine ⟨Or.inr ⟨r, unpacked, ?_⟩, fun failed => absurd returned failed, ?_⟩
        · rw [left.1, notePrevious_frame u.current (by decide)]
          exact install
        · intro sound busy quiet _ c held
          obtain ⟨old, there, same⟩ := sound.installed
          have running : u.inPlace = u.current := if_neg busy
          rw [left.1, notePrevious_frame u.current (by decide)] at held
          have one : c = old := by
            have both := (held.symm.trans previous).trans there
            cases both
            rfl
          have named : previousVersion (notePrevious fails u.current fs) = u.current :=
            noted_version held (running ▸ sound.released) quiet
          rw [left.1, left.2, named, one, same, running]
          exact ⟨rfl, rfl⟩

omit [Packages C] [Signatures Key] in
/-- A rollback is refused, or comes to what the swap comes to. -/
theorem rollback_result (u : Updater C Key) (fails : Faults Name) : (u.rollback fails).2 = u ∨
    match swapPrevious fails u.kind u.disk with
    | (some _, fs) => (u.rollback fails).2.disk = fs ∧ (u.rollback fails).2.previous = u.previous
    | (none, fs) => (u.rollback fails).1 = none ∧ (u.rollback fails).2.disk = notePrevious fails u.inPlace fs ∧
      (u.rollback fails).2.previous = previousVersion (notePrevious fails u.inPlace fs) := by
  unfold rollback
  split_ifs
  · exact Or.inl rfl
  · exact Or.inl rfl
  · exact Or.inl rfl
  · right
    cases swapPrevious fails u.kind u.disk with
    | mk failure fs =>
      cases failure with
      | some e => exact ⟨rfl, rfl⟩
      | none => exact ⟨rfl, rfl, rfl⟩

omit [Packages C] [Signatures Key] in
theorem rollback_keeps_all (once : AtMostOne fails) (installed : (u.disk .install).isSome = true)
    (present : (u.disk .previous).isSome = true ∨ ∀ op, fails op = none) : RollbackKeeps carries u fails := by
  rcases rollback_result u fails with same | result
  · refine ⟨Or.inl (by rw [same]), fun _ => Or.inl (by rw [same]), fun sound _ => ?_⟩
    rw [same]
    exact sound.named
  · have swapped := swapPrevious_swapped once installed present u.kind
    cases moved : swapPrevious fails u.kind u.disk with
    | mk failure fs =>
      rw [moved] at swapped result
      cases failure with
      | some e =>
        obtain ⟨disk, previous⟩ := result
        rcases swapped.failed nofun with ⟨install, kept⟩ | ⟨last, install, gone⟩
        · refine ⟨Or.inl (by rw [disk]; exact install), fun _ => Or.inl (by rw [disk]; exact install), ?_⟩
          intro sound _ c held
          rw [disk] at held
          obtain ⟨noted, shown⟩ := sound.named c (kept.symm.trans held)
          rw [disk, previous]
          exact ⟨(previousVersion_congr kept swapped.note).trans noted, shown⟩
        · refine ⟨Or.inr ⟨?_, by rw [disk]; exact install⟩, fun _ => Or.inr last, ?_⟩
          · exact present.resolve_right fun quiet => last (quiet _)
          · intro _ _ c held
            rw [disk] at held
            cases gone.symm.trans held
      | none =>
        obtain ⟨returned, disk, previous⟩ := result
        obtain ⟨there, install, kept⟩ := swapped.done rfl
        have now : (u.rollback fails).2.disk .install = u.disk .previous := by
          rw [disk, notePrevious_frame u.inPlace (by decide)]
          exact install
        refine ⟨Or.inr ⟨there, now⟩, fun failed => absurd returned failed, fun sound quiet c held => ?_⟩
        obtain ⟨old, before, same⟩ := sound.installed
        rw [disk, notePrevious_frame u.inPlace (by decide)] at held
        have one : c = old := by
          have both := (held.symm.trans kept).trans before
          cases both
          rfl
        have named : previousVersion (notePrevious fails u.inPlace fs) = u.inPlace := noted_version held sound.released quiet
        rw [disk, previous, named, one, same]
        exact ⟨rfl, rfl⟩

end Keeps

omit [Signatures Key] in
/-- With one failing operation at most, the installation is complete, the old one where an
error is returned but for the last step of a swap, and what is kept is named but for the
step that slips and a note that cannot be written. -/
theorem replacing_keeps (carries : C → Str) (u : Updater C Key) (fails : Faults Name) (file : C) (version : Str)
    (once : AtMostOne fails) (installed : (u.disk .install).isSome = true) : PutKeeps carries u fails file version ∧
      ((u.disk .previous).isSome = true ∨ (∀ op, fails op = none) → RollbackKeeps carries u fails) :=
  ⟨put_keeps_all once installed, rollback_keeps_all once installed⟩

end Updater
end NatsExplorer.Update

namespace NatsExplorer.Update.Updater
open Go Files

/-- An updated installation with the version before it. -/
def twoVersions : Updater Str Unit where
  current := ['2']
  kind := .appImage
  reason := ""
  key := some ()
  state := { state := .idle }
  previous := ['1']
  disk
    | .install => some (.build ['n'])
    | .previous => some (.build ['o'])
    | .note => some (.text ['1', '\n'])
    | _ => none
  jobs := []
  log := []

def lastFails : Faults Name := fun op => if op = .rename .swap .previous then some "permission denied" else none

theorem lastFails_once : AtMostOne lastFails := by
  intro a b first second
  unfold lastFails at first second
  split_ifs at first second with one other
  · rw [one, other]
  · exact absurd rfl second
  · exact absurd rfl first
  · exact absurd rfl first

theorem replacing_keeps_last :
    let _ := asciiTables
    let _ := samplePackages
    PutKeeps (fun c => if c = ['n'] then ['2'] else ['1']) twoVersions lastFails ['p'] ['3'] ∧
      RollbackKeeps (fun c => if c = ['n'] then ['2'] else ['1']) twoVersions lastFails := by
  intro tables packages
  obtain ⟨placing, rolling⟩ := replacing_keeps (fun c => if c = ['n'] then ['2'] else ['1']) twoVersions lastFails
    ['p'] ['3'] lastFails_once rfl
  exact ⟨placing, rolling (Or.inl rfl)⟩

/-- The last step of the swap fails: an error, and the other version in place. -/
theorem failed_swap_installs : AtMostOne lastFails ∧
    (@rollback asciiTables _ _ twoVersions lastFails).1 = some "going back to 1: permission denied" ∧
      twoVersions.disk.build .install = some ['n'] ∧
        (@rollback asciiTables _ _ twoVersions lastFails).2.disk.build .install = some ['o'] :=
  ⟨lastFails_once, by decide +kernel, by decide, by decide +kernel⟩

end NatsExplorer.Update.Updater
