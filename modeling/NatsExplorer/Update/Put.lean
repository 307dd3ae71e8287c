import NatsExplorer.Go.Text
import NatsExplorer.Library.Files

/-! How an update replaces the installation and keeps what it replaces
(`internal/update/put.go`, and the previous version in `target.go`). -/
namespace NatsExplorer.Update
open Go Files

inductive Kind where
  | appImage
  | tarball
  | windows
  | macApp
  deriving DecidableEq

/-- The names next to an installation: where it is, its previous version with the note of
which version that is, a new file on its way, a copy on its way, and what a swap puts aside. -/
inductive Name where
  | install
  | previous
  | note
  | update
  | copy
  | swap
  deriving DecidableEq

/-- A build of the app, or a line of text. -/
inductive Data (C : Type) where
  | build (c : C)
  | text (s : Str)

abbrev Disk (C : Type) := FS Name (Data C)

/-- What a package of each kind installs, at most `maxAsset` bytes of it; its SHA-256 in
hex; its length. -/
class Packages (C : Type) where
  unpack : Kind → C → Except String C
  sum : C → Str
  size : C → Nat

/-- The version kept to go back to, or empty. -/
def previousVersion [Tables] {C : Type} (fs : Disk C) : Str :=
  match fs .previous, fs .note with
  | some _, some (.text line) =>
    match strings.trimSpace line with
    | first :: rest => if '0' ≤ first ∧ first ≤ '9' then first :: rest else []
    | [] => []
  | _, _ => []

variable {C : Type} (fails : Faults Name)

/-- The old file gets a second name, or a copy where there are no hard links. -/
def keepOld (fs : Disk C) : Disk C :=
  match link fails .install .previous fs with
  | .ok fs => fs
  | .error _ =>
    match read fails .install fs with
    | .error _ => fs
    | .ok src =>
      match write fails .copy src fs with
      | .error _ => fs
      | .ok fs =>
        match rename fails false .copy .previous fs with
        | .ok fs => fs
        | .error _ => attempt (remove fails .copy fs) fs

def replaceFile (r : C) (fs : Disk C) : Option String × Disk C :=
  match write fails .update (.build r) fs with
  | .error e => (some e, fs)
  | .ok fs =>
    let fs := keepOld fails (attempt (remove fails .previous fs) fs)
    match rename fails false .update .install fs with
    | .error e => (some e, attempt (remove fails .update fs) fs)
    | .ok fs => (none, fs)

/-- The old one steps aside as the previous version. -/
def replaceRunning (r : C) (fs : Disk C) : Option String × Disk C :=
  match write fails .update (.build r) fs with
  | .error e => (some e, fs)
  | .ok fs =>
    let fs := attempt (remove fails .previous fs) fs
    match rename fails false .install .previous fs with
    | .error e => (some e, attempt (remove fails .update fs) fs)
    | .ok fs =>
      match rename fails false .update .install fs with
      | .error e =>
        let fs := attempt (rename fails false .previous .install fs) fs
        (some e, attempt (remove fails .update fs) fs)
      | .ok fs => (none, fs)

/-- `stage` is the bundle unpacked; it is removed at the end whatever happens. -/
def replaceBundle (app : C) (fs : Disk C) : Option String × Disk C :=
  let cleared (fs : Disk C) : Disk C := attempt (removeAll fails .update fs) fs
  match write fails .update (.build app) fs with
  | .error e => (some e, cleared fs)
  | .ok fs =>
    match removeAll fails .previous fs with
    | .error e => (some e, cleared fs)
    | .ok fs =>
      match rename fails true .install .previous fs with
      | .error e => (some e, cleared fs)
      | .ok fs =>
        match rename fails true .update .install fs with
        | .error e => (some e, cleared (attempt (rename fails true .previous .install fs) fs))
        | .ok fs => (none, cleared fs)

/-- Replaces the installation with what the package has for it. -/
def put [Packages C] (kind : Kind) (file : C) (fs : Disk C) : Option String × Disk C :=
  match Packages.unpack kind file with
  | .error e => (some e, fs)
  | .ok r =>
    match kind with
    | .appImage | .tarball => replaceFile fails r fs
    | .windows => replaceRunning fails r fs
    | .macApp => replaceBundle fails r fs

/-- Exchanges the installation and the previous version. -/
def swapPrevious (kind : Kind) (fs : Disk C) : Option String × Disk C :=
  let directory : Bool := kind = .macApp
  let fs := attempt (removeAll fails .swap fs) fs
  match rename fails directory .install .swap fs with
  | .error e => (some e, fs)
  | .ok fs =>
    match rename fails directory .previous .install fs with
    | .error e => (some e, attempt (rename fails directory .swap .install fs) fs)
    | .ok fs =>
      match rename fails directory .swap .previous fs with
      | .error e => (some e, fs)
      | .ok fs => (none, fs)

/-- A note that cannot be written is only logged. -/
def notePrevious (version : Str) (fs : Disk C) : Disk C :=
  match fs .previous with
  | none => fs
  | some _ => attempt (write fails .note (.text (version ++ ['\n'])) fs) fs

/-! What is kept as the previous version was kept before, or was the installation. -/

section Kept
variable {fails} {fs : Disk C}

/-- The previous version may be gone, or the one from before, or what was installed. -/
def KeepsOld (fs fs' : Disk C) : Prop :=
  fs' .previous = none ∨ fs' .previous = fs .previous ∨ fs' .previous = fs .install

theorem KeepsOld.of_previous {fs' fs'' : Disk C} (kept : KeepsOld fs fs'') (same : fs' .previous = fs'' .previous) :
    KeepsOld fs fs' := by
  unfold KeepsOld
  rw [same]
  exact kept

theorem keepOld_frame {name : Name} (other : name ≠ .previous) (another : name ≠ .copy) :
    keepOld fails fs name = fs name := by
  unfold keepOld
  cases linked : link fails .install .previous fs with
  | ok fs' =>
    rw [link_ok linked]
    exact Function.update_of_ne other _ _
  | error e =>
    dsimp only
    cases opened : read fails .install fs with
    | error e => rfl
    | ok src =>
      dsimp only
      cases written : write fails .copy src fs with
      | error e => rfl
      | ok fs₁ =>
        have copied : fs₁ name = fs name := by
          rw [write_ok written]
          exact Function.update_of_ne another _ _
        dsimp only
        cases renamed : rename fails false .copy .previous fs₁ with
        | error e => exact (attempt_remove .copy fs₁ another).trans copied
        | ok fs₂ =>
          rw [(rename_ok renamed).2]
          exact (Function.update_of_ne other _ _).trans ((Function.update_of_ne another _ _).trans copied)

theorem keepOld_previous : keepOld fails fs .previous = fs .previous ∨ keepOld fails fs .previous = fs .install := by
  unfold keepOld
  cases linked : link fails .install .previous fs with
  | ok fs' =>
    rw [link_ok linked]
    exact Or.inr (Function.update_self ..)
  | error e =>
    dsimp only
    cases opened : read fails .install fs with
    | error e => exact Or.inl rfl
    | ok src =>
      dsimp only
      cases written : write fails .copy src fs with
      | error e => exact Or.inl rfl
      | ok fs₁ =>
        obtain rfl := write_ok written
        dsimp only
        cases renamed : rename fails false .copy .previous (Function.update fs .copy (some src)) with
        | error e => refine Or.inl ((attempt_remove Name.copy _ ?_).trans (Function.update_of_ne ?_ _ _)) <;> decide
        | ok fs₂ =>
          rw [(rename_ok renamed).2, read_ok opened]
          exact Or.inr (Function.update_self ..)

/-- What is there once the new file is written and the previous version is out of the way. -/
theorem cleared_keeps (fails : Faults Name) (fs : Disk C) (r : C) :
    let fs₁ := Function.update fs .update (some (Data.build r))
    (attempt (remove fails .previous fs₁) fs₁ .previous = none ∨
        attempt (remove fails .previous fs₁) fs₁ .previous = fs .previous) ∧
      attempt (remove fails .previous fs₁) fs₁ .install = fs .install := by
  refine ⟨?_, attempt_remove Name.previous _ (by decide)⟩
  rcases @attempt_remove_self _ _ _ fails Name.previous (Function.update fs .update (some (Data.build r))) with gone | same
  · exact Or.inl gone
  · exact Or.inr same

theorem replaceFile_keeps (r : C) : KeepsOld fs (replaceFile fails r fs).2 := by
  unfold replaceFile
  cases written : write fails .update (.build r) fs with
  | error e => exact Or.inr (Or.inl rfl)
  | ok fs₁ =>
    obtain rfl := write_ok written
    obtain ⟨cleared, same⟩ := cleared_keeps fails fs r
    dsimp only at cleared same ⊢
    generalize attempt (remove fails .previous (Function.update fs .update (some (Data.build r))))
      (Function.update fs .update (some (Data.build r))) = fs₂ at cleared same ⊢
    have kept : KeepsOld fs (keepOld fails fs₂) := by
      unfold KeepsOld
      rcases @keepOld_previous _ fails fs₂ with before | old
      · rw [before]
        exact cleared.imp_right Or.inl
      · rw [old, same]
        exact Or.inr (Or.inr rfl)
    cases renamed : rename fails false .update .install (keepOld fails fs₂) with
    | error e => exact kept.of_previous (attempt_remove Name.update _ (by decide))
    | ok fs₃ =>
      obtain rfl := (rename_ok renamed).2
      exact kept

theorem replaceRunning_keeps (r : C) : KeepsOld fs (replaceRunning fails r fs).2 := by
  unfold replaceRunning
  cases written : write fails .update (.build r) fs with
  | error e => exact Or.inr (Or.inl rfl)
  | ok fs₁ =>
    obtain rfl := write_ok written
    obtain ⟨cleared, same⟩ := cleared_keeps fails fs r
    dsimp only at cleared same ⊢
    generalize attempt (remove fails .previous (Function.update fs .update (some (Data.build r))))
      (Function.update fs .update (some (Data.build r))) = fs₂ at cleared same ⊢
    have kept : KeepsOld fs fs₂ := cleared.imp_right Or.inl
    cases aside : rename fails false .install .previous fs₂ with
    | error e => exact kept.of_previous (attempt_remove Name.update _ (by decide))
    | ok fs₃ =>
      have kept : KeepsOld fs fs₃ := Or.inr (Or.inr ((rename_moved (by decide) aside).there.trans same))
      dsimp only
      cases renamed : rename fails false .update .install fs₃ with
      | ok fs₄ =>
        obtain rfl := (rename_ok renamed).2
        exact kept
      | error e =>
        have undone : KeepsOld fs (attempt (rename fails false .previous .install fs₃) fs₃) := by
          rcases @attempt_rename_source _ _ _ fails _ _ false fs₃ (show Name.previous ≠ .install by decide) with gone | stays
          · exact Or.inl gone
          · exact kept.of_previous stays
        exact undone.of_previous (attempt_remove Name.update _ (by decide))

theorem replaceBundle_keeps (app : C) : KeepsOld fs (replaceBundle fails app fs).2 := by
  have clears {fs' : Disk C} (kept : KeepsOld fs fs') : KeepsOld fs (attempt (removeAll fails .update fs') fs') :=
    kept.of_previous (attempt_removeAll Name.update _ (by decide))
  unfold replaceBundle
  cases written : write fails .update (.build app) fs with
  | error e => exact clears (Or.inr (Or.inl rfl))
  | ok fs₁ =>
    obtain rfl := write_ok written
    have before : KeepsOld fs (Function.update fs .update (some (Data.build app))) := Or.inr (Or.inl rfl)
    dsimp only
    cases removed : removeAll fails .previous (Function.update fs .update (some (Data.build app))) with
    | error e => exact clears before
    | ok fs₂ =>
      obtain rfl := removeAll_ok removed
      dsimp only
      generalize stepped : Function.update (Function.update fs .update (some (Data.build app))) .previous none = fs₂
      have none : KeepsOld fs fs₂ := by
        rw [← stepped]
        exact Or.inl (Function.update_self ..)
      have same : fs₂ .install = fs .install := by
        rw [← stepped]
        rfl
      cases aside : rename fails true .install .previous fs₂ with
      | error e => exact clears none
      | ok fs₃ =>
        have kept : KeepsOld fs fs₃ := Or.inr (Or.inr ((rename_moved (by decide) aside).there.trans same))
        dsimp only
        cases renamed : rename fails true .update .install fs₃ with
        | ok fs₄ =>
          obtain rfl := (rename_ok renamed).2
          exact clears kept
        | error e =>
          refine clears ?_
          rcases @attempt_rename_source _ _ _ fails _ _ true fs₃ (show Name.previous ≠ .install by decide) with gone | stays
          · exact Or.inl gone
          · exact kept.of_previous stays

theorem put_keeps [Packages C] (kind : Kind) (file : C) : KeepsOld fs (put fails kind file fs).2 := by
  unfold put
  cases Packages.unpack kind file with
  | error e => exact Or.inr (Or.inl rfl)
  | ok r =>
    cases kind with
    | appImage => exact replaceFile_keeps r
    | tarball => exact replaceFile_keeps r
    | windows => exact replaceRunning_keeps r
    | macApp => exact replaceBundle_keeps r

/-- A swap installs nothing but the previous version, and keeps nothing but the installation. -/
theorem swapPrevious_keeps (kind : Kind) : KeepsOld fs (swapPrevious fails kind fs).2 ∧
    ((swapPrevious fails kind fs).2 .install = none ∨ (swapPrevious fails kind fs).2 .install = fs .install ∨
      (swapPrevious fails kind fs).2 .install = fs .previous) := by
  unfold swapPrevious
  have installed : attempt (removeAll fails .swap fs) fs .install = fs .install := attempt_removeAll Name.swap fs (by decide)
  have previous : attempt (removeAll fails .swap fs) fs .previous = fs .previous := attempt_removeAll Name.swap fs (by decide)
  generalize attempt (removeAll fails .swap fs) fs = fs₁ at installed previous
  dsimp only
  cases aside : rename fails (kind = .macApp) .install .swap fs₁ with
  | error e => exact ⟨Or.inr (Or.inl previous), Or.inr (Or.inl installed)⟩
  | ok fs₂ =>
    have moved := rename_moved (by decide) aside
    have kept : fs₂ .previous = fs .previous := (moved.others .previous (by decide) (by decide)).trans previous
    have waiting : fs₂ .swap = fs .install := moved.there.trans installed
    dsimp only
    cases back : rename fails (kind = .macApp) .previous .install fs₂ with
    | error e =>
      have still := @attempt_rename _ _ _ fails _ (kind = .macApp : Bool) Name.swap .install fs₂
        (show Name.previous ≠ .swap by decide) (by decide)
      refine ⟨Or.inr (Or.inl (still.trans kept)), ?_⟩
      rcases @attempt_rename_target _ _ _ fails (kind = .macApp : Bool) .swap .install fs₂ with undone | stays
      · exact Or.inr (Or.inl (undone.trans waiting))
      · exact Or.inl (stays.trans moved.gone)
    | ok fs₃ =>
      obtain rfl := (rename_ok back).2
      dsimp only
      cases forth : rename fails (kind = .macApp) .swap .previous
          (Function.update (Function.update fs₂ .previous none) .install (fs₂ .previous)) with
      | error e => exact ⟨Or.inl rfl, Or.inr (Or.inr kept)⟩
      | ok fs₄ =>
        obtain rfl := (rename_ok forth).2
        exact ⟨Or.inr (Or.inr waiting), Or.inr (Or.inr kept)⟩

theorem notePrevious_frame (version : Str) {name : Name} (other : name ≠ .note) :
    notePrevious fails version fs name = fs name := by
  unfold notePrevious
  cases fs .previous with
  | none => rfl
  | some d =>
    dsimp only
    cases written : write fails .note (.text (version ++ ['\n'])) fs with
    | error e => rfl
    | ok fs' =>
      rw [write_ok written]
      exact Function.update_of_ne other _ _

end Kept
end NatsExplorer.Update
