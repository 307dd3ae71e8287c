import Mathlib.Data.List.AList
import Mathlib.Data.List.Chain
import Mathlib.Logic.Relation

/-! Levels of a graph by a depth-first search that remembers what it has found and cuts a cycle where it closes: a node
is one above the highest node below it. The depth of the search is bounded by a fuel, which the number of nodes is. -/
namespace Levels
variable {α : Type*} [DecidableEq α] (ups : α → List α)

abbrev Found (α : Type*) := AList fun _ : α => ℕ

/-- The level of a node, and what is known after it; none when the fuel is out. -/
def levelOf : ℕ → List α → α → Found α → Option (ℕ × Found α)
  | fuel, visiting, name, found =>
    match found.lookup name with
    | some l => some (l, found)
    | none =>
      if name ∈ visiting then some (1, found)
      else
        match fuel with
        | 0 => none
        | fuel + 1 =>
          let below := (ups name).foldlM (fun (s : ℕ × Found α) u =>
            (levelOf fuel (name :: visiting) u s.2).map fun r => (max s.1 (r.1 + 1), r.2)) (1, found)
          below.map fun r => (r.1, r.2.insert name r.1)

/-- The levels of nodes and of what is below them. -/
def levels (fuel : ℕ) (nodes : List α) : Option (Found α) :=
  nodes.foldlM (fun found name => (levelOf ups fuel [] name found).map Prod.snd) ∅

/-- One node reaches another downwards. -/
abbrev Reaches : α → α → Prop := Relation.ReflTransGen fun s u => u ∈ ups s

/-- What is known fits together: a node is above each node below it, and just above one of them, but for edges that
close a cycle. -/
structure Fits (found : Found α) : Prop where
  above : ∀ {s l u}, found.lookup s = some l → u ∈ ups s → (∃ k, found.lookup u = some k ∧ k < l) ∨ Reaches ups u s
  just : ∀ {s l}, found.lookup s = some l → l = 1 ∨ ∃ u ∈ ups s, ∃ k, l = k + 1 ∧ (found.lookup u = some k ∨ Reaches ups u s)

/-- Nothing that was known is forgotten. -/
def Keeps (found found' : Found α) : Prop := ∀ {s l}, found.lookup s = some l → found'.lookup s = some l

/-- What a search for one node makes of what is known: the nodes being visited stay unknown. -/
structure Searched (visiting : List α) (name : α) (found : Found α) (l : ℕ) (found' : Found α) : Prop where
  keeps : Keeps found found'
  fits : Fits ups found'
  unknown : ∀ v ∈ visiting, found.lookup v = none → found'.lookup v = none
  known : found'.lookup name = some l ∨ name ∈ visiting ∧ l = 1

/-- What the searches for some nodes below one make of it. -/
structure Below (visiting : List α) (name : α) (us : List α) (m : ℕ) (found : Found α) (m' : ℕ) (found' : Found α) : Prop where
  keeps : Keeps found found'
  fits : Fits ups found'
  unknown : ∀ v ∈ visiting, found.lookup v = none → found'.lookup v = none
  more : m ≤ m'
  above : ∀ u ∈ us, (∃ k, found'.lookup u = some k ∧ k < m') ∨ Reaches ups u name
  just : m' = m ∨ ∃ u ∈ us, ∃ k, m' = k + 1 ∧ (found'.lookup u = some k ∨ Reaches ups u name)

variable {ups} {visiting : List α} {name : α}

theorem below_fold {search : α → Found α → Option (ℕ × Found α)} (path : ∀ v ∈ visiting, Reaches ups v name)
    (us : List α) (each : ∀ u ∈ us, ∀ found l found', Fits ups found → search u found = some (l, found') →
      Searched ups visiting u found l found') {m m' : ℕ} {found found' : Found α} (fits : Fits ups found)
    (folded : us.foldlM (fun (s : ℕ × Found α) u => (search u s.2).map fun r => (max s.1 (r.1 + 1), r.2)) (m, found) =
      some (m', found')) : Below ups visiting name us m found m' found' := by
  induction us generalizing m found with
  | nil =>
    cases folded
    exact ⟨id, fits, fun _ _ => id, le_rfl, nofun, .inl rfl⟩
  | cons u us ih =>
    rw [List.foldlM_cons] at folded
    obtain ⟨⟨m₁, found₁⟩, first, rest⟩ := Option.bind_eq_some_iff.mp folded
    obtain ⟨⟨l, found₂⟩, searched, same⟩ := Option.map_eq_some_iff.mp first
    cases same
    have one := each u List.mem_cons_self found l found₂ fits searched
    have others := ih (fun u' member => each u' (List.mem_cons_of_mem _ member)) one.fits rest
    have grown := others.more
    refine ⟨fun here => others.keeps (one.keeps here), others.fits, fun v there none => others.unknown v there (one.unknown v there none),
      by omega, List.forall_mem_cons.mpr ⟨?_, others.above⟩, ?_⟩
    · rcases one.known with known | ⟨cut, -⟩
      · exact .inl ⟨l, others.keeps known, by omega⟩
      · exact .inr (path u cut)
    · rcases others.just with same | ⟨u', member, k, top, known⟩
      · by_cases higher : l + 1 ≤ m
        · exact .inl (by omega)
        · refine .inr ⟨u, List.mem_cons_self, l, by omega, ?_⟩
          exact one.known.imp (fun known => others.keeps known) fun cut => path u cut.1
      · exact .inr ⟨u', List.mem_cons_of_mem _ member, k, top, known⟩

/-- What is known after a node has its level. -/
theorem Below.insert {m' : ℕ} {found found' : Found α} (below : Below ups (name :: visiting) name (ups name) 1 found m' found')
    (unknown : found.lookup name = none) (fresh : name ∉ visiting) :
    Searched ups visiting name found m' (found'.insert name m') := by
  have none : found'.lookup name = Option.none := below.unknown name List.mem_cons_self unknown
  have other {s : α} {l : ℕ} (here : found'.lookup s = some l) : (found'.insert name m').lookup s = some l := by
    refine (AList.lookup_insert_ne ?_).trans here
    rintro rfl
    rw [none] at here
    cases here
  have split {s : α} {l : ℕ} (here : (found'.insert name m').lookup s = some l) : s = name ∧ l = m' ∨ found'.lookup s = some l := by
    by_cases same : s = name
    · subst same
      rw [AList.lookup_insert] at here
      exact .inl ⟨rfl, (Option.some.inj here).symm⟩
    · rw [AList.lookup_insert_ne same] at here
      exact .inr here
  refine ⟨fun here => other (below.keeps here), ⟨fun {s l u} here edge => ?_, fun {s l} here => ?_⟩, fun v there absent => ?_,
    .inl (AList.lookup_insert _)⟩
  · obtain ⟨rfl, rfl⟩ | before := split here
    · exact (below.above u edge).imp_left fun ⟨k, known, lower⟩ => ⟨k, other known, lower⟩
    · exact (below.fits.above before edge).imp_left fun ⟨k, known, lower⟩ => ⟨k, other known, lower⟩
  · obtain ⟨rfl, rfl⟩ | before := split here
    · exact below.just.imp_right fun ⟨u, edge, k, top, known⟩ => ⟨u, edge, k, top, known.imp_left other⟩
    · exact (below.fits.just before).imp_right fun ⟨u, edge, k, top, known⟩ => ⟨u, edge, k, top, known.imp_left other⟩
  · have apart : v ≠ name := fun same => fresh (same ▸ there)
    exact (AList.lookup_insert_ne apart).trans (below.unknown v (List.mem_cons_of_mem _ there) absent)

/-- A search keeps what is known together, and answers for its node. -/
theorem levelOf_searched (fuel : ℕ) (visiting : List α) (name : α) (found : Found α) (fits : Fits ups found)
    (path : ∀ v ∈ visiting, Reaches ups v name) {l : ℕ} {found' : Found α}
    (searched : levelOf ups fuel visiting name found = some (l, found')) : Searched ups visiting name found l found' := by
  induction fuel generalizing visiting name found l found' with
  | zero =>
    unfold levelOf at searched
    split at searched
    · rename_i k known
      cases searched
      exact ⟨id, fits, fun _ _ => id, .inl known⟩
    · split at searched
      · rename_i cut
        cases searched
        exact ⟨id, fits, fun _ _ => id, .inr ⟨cut, rfl⟩⟩
      · cases searched
  | succ fuel ih =>
    unfold levelOf at searched
    split at searched
    · rename_i k known
      cases searched
      exact ⟨id, fits, fun _ _ => id, .inl known⟩
    · rename_i unknown
      split at searched
      · rename_i cut
        cases searched
        exact ⟨id, fits, fun _ _ => id, .inr ⟨cut, rfl⟩⟩
      · rename_i fresh
        obtain ⟨⟨l', found''⟩, folded, same⟩ := Option.map_eq_some_iff.mp searched
        cases same
        have stack : ∀ v ∈ name :: visiting, Reaches ups v name := List.forall_mem_cons.mpr ⟨.refl, path⟩
        have below := below_fold stack (ups name)
          (fun u edge found l found' fits searched => ih (name :: visiting) u found fits
            (fun v there => (stack v there).tail edge) searched) fits folded
        exact below.insert unknown fresh

omit [DecidableEq α] in
theorem fold_total {search : α → Found α → Option (ℕ × Found α)} (us : List α) (each : ∀ u ∈ us, ∀ found, (search u found).isSome = true)
    (s : ℕ × Found α) :
    (us.foldlM (fun (s : ℕ × Found α) u => (search u s.2).map fun r => (max s.1 (r.1 + 1), r.2)) s).isSome = true := by
  induction us generalizing s with
  | nil => rfl
  | cons u us ih =>
    obtain ⟨r, found⟩ := Option.isSome_iff_exists.mp (each u List.mem_cons_self s.2)
    rw [List.foldlM_cons, found]
    exact ih (fun u' member => each u' (List.mem_cons_of_mem _ member)) _

/-- The fuel lasts as long as there are nodes that are not being visited. -/
theorem levelOf_total {nodes : List α} (closed : ∀ s ∈ nodes, ∀ u ∈ ups s, u ∈ nodes) (fuel : ℕ) (visiting : List α) (name : α)
    (found : Found α) (inside : name ∈ nodes) (lasts : (nodes.filter (· ∉ visiting)).length ≤ fuel) :
    (levelOf ups fuel visiting name found).isSome = true := by
  have left (fresh : name ∉ visiting) : name ∈ nodes.filter (· ∉ visiting) := List.mem_filter.mpr ⟨inside, decide_eq_true fresh⟩
  induction fuel generalizing visiting name found with
  | zero =>
    unfold levelOf
    split
    · rfl
    · split
      · rfl
      · rename_i fresh
        exact absurd lasts (Nat.not_le_of_lt (List.length_pos_of_mem (left fresh)))
  | succ fuel ih =>
    unfold levelOf
    split
    · rfl
    · split
      · rfl
      · rename_i fresh
        have fewer : (nodes.filter (· ∉ name :: visiting)).length < (nodes.filter (· ∉ visiting)).length := by
          have split : nodes.filter (· ∉ name :: visiting) = (nodes.filter (· ∉ visiting)).filter (· ≠ name) := by
            rw [List.filter_filter]
            refine List.filter_congr fun u _ => ?_
            simp [not_or]
          rw [split]
          exact List.length_filter_lt_length_iff_exists.mpr ⟨name, left fresh, by simp⟩
        rw [Option.isSome_map]
        refine fold_total (ups name) (fun u edge found => ?_) _
        refine ih (name :: visiting) u found (closed name inside u edge) (by omega) fun fresh => ?_
        exact List.mem_filter.mpr ⟨closed name inside u edge, decide_eq_true fresh⟩

omit [DecidableEq α] in
theorem fold_more {search search' : α → Found α → Option (ℕ × Found α)}
    (each : ∀ u found r, search u found = some r → search' u found = some r) (us : List α) {s r : ℕ × Found α}
    (folded : us.foldlM (fun (s : ℕ × Found α) u => (search u s.2).map fun r => (max s.1 (r.1 + 1), r.2)) s = some r) :
    us.foldlM (fun (s : ℕ × Found α) u => (search' u s.2).map fun r => (max s.1 (r.1 + 1), r.2)) s = some r := by
  induction us generalizing s with
  | nil => exact folded
  | cons u us ih =>
    rw [List.foldlM_cons] at folded ⊢
    obtain ⟨next, first, rest⟩ := Option.bind_eq_some_iff.mp folded
    obtain ⟨one, searched, same⟩ := Option.map_eq_some_iff.mp first
    rw [each u s.2 one searched]
    exact (congrArg (fun s => List.foldlM _ s us) same).trans (ih rest)

/-- More fuel finds the same. -/
theorem levelOf_more {fuel more : ℕ} (enough : fuel ≤ more) {visiting : List α} {name : α} {found : Found α} {r : ℕ × Found α}
    (searched : levelOf ups fuel visiting name found = some r) : levelOf ups more visiting name found = some r := by
  induction fuel generalizing more visiting name found r with
  | zero =>
    unfold levelOf at searched ⊢
    split at searched
    · exact searched
    · split at searched
      · rename_i cut
        rw [if_pos cut]
        exact searched
      · cases searched
  | succ fuel ih =>
    obtain ⟨more, rfl⟩ := Nat.exists_eq_succ_of_ne_zero (Nat.ne_of_gt ((Nat.succ_pos fuel).trans_le enough))
    unfold levelOf at searched ⊢
    split at searched
    · exact searched
    · split at searched
      · rename_i cut
        rw [if_pos cut]
        exact searched
      · rename_i fresh
        rw [if_neg fresh]
        obtain ⟨below, folded, same⟩ := Option.map_eq_some_iff.mp searched
        have each (u : α) (found : Found α) (r : ℕ × Found α) (searched : levelOf ups fuel (name :: visiting) u found = some r) :
            levelOf ups more (name :: visiting) u found = some r := ih (Nat.le_of_succ_le_succ enough) searched
        have folded := fold_more each (ups name) folded
        exact Option.map_eq_some_iff.mpr ⟨below, folded, same⟩

theorem levels_more {fuel more : ℕ} (enough : fuel ≤ more) {nodes : List α} {found : Found α} (all : levels ups fuel nodes = some found) :
    levels ups more nodes = some found := by
  unfold levels at all ⊢
  generalize (∅ : Found α) = start at all ⊢
  induction nodes generalizing start with
  | nil => exact all
  | cons name nodes ih =>
    rw [List.foldlM_cons] at all ⊢
    obtain ⟨next, first, rest⟩ := Option.bind_eq_some_iff.mp all
    obtain ⟨one, searched, same⟩ := Option.map_eq_some_iff.mp first
    rw [levelOf_more enough searched]
    exact (congrArg (fun s => List.foldlM _ s nodes) same).trans (ih next rest)

/-- A chain downwards, each node below the one before. -/
abbrev Chain (ups : α → List α) (s : α) (below : List α) : Prop := List.IsChain (fun s u => u ∈ ups s) (s :: below)

/-- There is no way from a node below another back to it. -/
def Acyclic (ups : α → List α) : Prop := ∀ s, ∀ u ∈ ups s, ¬ Reaches ups u s

/-- Without cycles a level is the length of the longest chain. -/
theorem Fits.longest {found : Found α} (fits : Fits ups found) (acyclic : Acyclic ups) {s : α} {l : ℕ}
    (known : found.lookup s = some l) :
    (∃ below, Chain ups s below ∧ below.length + 1 = l) ∧ ∀ below, Chain ups s below → below.length + 1 ≤ l := by
  have positive {s : α} {l : ℕ} (known : found.lookup s = some l) : 1 ≤ l := by
    rcases fits.just known with first | ⟨u, -, k, top, -⟩ <;> omega
  constructor
  · induction l generalizing s with
    | zero => exact absurd (positive known) (by decide)
    | succ k ih =>
      rcases fits.just known with first | ⟨u, edge, k', top, known' | back⟩
      · exact ⟨[], List.isChain_singleton _, first.symm⟩
      · obtain rfl : k = k' := by omega
        obtain ⟨below, chain, length⟩ := ih known'
        exact ⟨u :: below, List.isChain_cons_cons.mpr ⟨edge, chain⟩, congrArg (· + 1) length⟩
      · exact absurd back (acyclic s u edge)
  · intro below chain
    induction below generalizing s l with
    | nil => exact positive known
    | cons u below ih =>
      obtain ⟨edge, rest⟩ := List.isChain_cons_cons.mp chain
      obtain ⟨k, known', lower⟩ := (fits.above known edge).resolve_right (acyclic s u edge)
      have shorter := ih known' rest
      rw [List.length_cons]
      omega

theorem levels_fold {nodes : List α} (closed : ∀ s ∈ nodes, ∀ u ∈ ups s, u ∈ nodes) (fuel : ℕ) (lasts : nodes.length ≤ fuel)
    (todo : List α) (among : todo ⊆ nodes) (found : Found α) (fits : Fits ups found) :
    ∃ found', todo.foldlM (fun found name => (levelOf ups fuel [] name found).map Prod.snd) found = some found' ∧
      Keeps found found' ∧ Fits ups found' ∧ ∀ s ∈ todo, ∃ l, found'.lookup s = some l := by
  induction todo generalizing found with
  | nil => exact ⟨found, rfl, id, fits, nofun⟩
  | cons name todo ih =>
    have inside : name ∈ nodes := among List.mem_cons_self
    have total := levelOf_total closed fuel [] name found inside ((List.length_filter_le _ _).trans lasts)
    obtain ⟨⟨l, found₁⟩, searched⟩ := Option.isSome_iff_exists.mp total
    have one := levelOf_searched fuel [] name found fits nofun searched
    obtain ⟨found₂, rest, keeps, fits₂, known⟩ := ih (fun _ there => among (List.mem_cons_of_mem _ there)) found₁ one.fits
    refine ⟨found₂, ?_, fun here => keeps (one.keeps here), fits₂, List.forall_mem_cons.mpr ⟨⟨l, keeps ?_⟩, known⟩⟩
    · rw [List.foldlM_cons, searched]
      exact rest
    · exact one.known.resolve_right fun cut => List.not_mem_nil cut.1

/-- The levels of nodes, none of which is below a node that is not among them. -/
theorem levels_spec {nodes : List α} (closed : ∀ s ∈ nodes, ∀ u ∈ ups s, u ∈ nodes) (fuel : ℕ) (lasts : nodes.length ≤ fuel) :
    ∃ found, levels ups fuel nodes = some found ∧ Fits ups found ∧ ∀ s ∈ nodes, ∃ l, found.lookup s = some l ∧ 1 ≤ l := by
  have start : Fits ups (∅ : Found α) := ⟨nofun, nofun⟩
  obtain ⟨found, all, -, fits, known⟩ := levels_fold closed fuel lasts nodes (fun _ => id) ∅ start
  refine ⟨found, all, fits, fun s there => ?_⟩
  obtain ⟨l, here⟩ := known s there
  refine ⟨l, here, ?_⟩
  rcases fits.just here with first | ⟨u, -, k, top, -⟩ <;> omega

end Levels
