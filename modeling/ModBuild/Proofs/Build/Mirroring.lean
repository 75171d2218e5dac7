import ModBuild.Proofs.Build.Assets
import ModBuild.Proofs.Workspace.Within

/-!
# Mirroring a directory

A directory is mirrored file by file, so what is below it is copied with the
names on the way to it kept. The filter for the transpiler is on all of these
names: a file is mirrored unless it, or a directory that it is in, is named like
a source of the transpiler. As long as nothing is mirrored into the directory
itself, every copy reads what was there before the first of them.
-/

set_option autoImplicit false

namespace ModBuild.Asset

variable {source destination : Path} {config : Config} {year : Nat} {w w' : Workspace}

/-- There is a file below a directory that stands, at the end of a way. -/
def FileBelow (w : Workspace) (source : Path) (way : Location) : Prop :=
  w.Stands source ∧ way ≠ [] ∧ w.tree.file? ((along source way).location w.current) ≠ none

instance (w : Workspace) (source : Path) (way : Location) : Decidable (FileBelow w source way) :=
  inferInstanceAs (Decidable (_ ∧ _ ∧ _))

/-- Whether the name at the end of a way leaves it to the transpiler. -/
def endTranspiled (way : Location) : Bool := way.getLast?.any transpiled

theorem any_transpiled {way : Location} (hway : way ≠ []) :
    way.any transpiled = (way.dropLast.any transpiled || endTranspiled way) := by
  have hsplit := List.dropLast_append_getLast hway
  rw [endTranspiled, List.getLast?_eq_some_getLast hway, ← congrArg (List.any · transpiled) hsplit]
  simp

theorem along_injective {a b : Location} (h : along source a = along source b) : a = b :=
  way_of_location (congrArg (Path.location []) h)

theorem filesBelow_found {ways : List Location} (h : w.filesBelow source = .ok ways) :
    ways.Nodup ∧ ∀ way, way ∈ ways ↔ FileBelow w source way := by
  by_cases hs : w.Stands source
  · have hways := Workspace.filesBelow_along hs [] (by
      rw [along_nil]
      exact (Workspace.resolve_ok hs.resolve).1) (by rwa [along_nil])
    rw [List.append_nil] at hways
    subst hways
    refine ⟨(w.tree.ordered_filesBelow _).nodup, fun way => ?_⟩
    rw [Tree.mem_filesBelow, FileBelow, location_along]
    exact (and_iff_right hs).symm
  · rw [Workspace.filesBelow, Workspace.below] at h
    cases hd : w.isDirectory source with
    | error f => rw [hd] at h; cases h
    | ok b =>
      have hno : b = false := Bool.eq_false_iff.mpr fun hb => hs (hd.trans (by rw [hb]))
      rw [hd, hno] at h
      cases h
      exact ⟨List.nodup_nil, by simp [FileBelow, hs]⟩

theorem copy_leads {p : Path} {u : Unit} (h : copy source p config year w = .ok u w') :
    w.Leads (fun _ => True) [copied config year w source p] w' ∧
      (copied config year w source p).2.isSome := by
  obtain ⟨w₁, w₂, u₁, bytes, b, htree, hcurrent, hmake, hread, hcontent, hwrite⟩ := copy_steps h
  have h₁ : w.Leads (fun _ => True) [] w₁ := .of_tree htree hcurrent
  have h₂ := Action.makeDirectories_outer p.parent w₁
  rw [Action.final_of_ok hmake] at h₂
  have h₁₂ := h₁.trans (h₂.mono fun _ _ => trivial)
  have hleads := (Action.writeBytes_ok (D := fun _ => True) hwrite).2
  have hcopied := copied_of_read hread hcontent
  rw [← hcopied] at hleads
  rw [copied_congr config year p h₁₂.current (h₁₂.file_untouched (by simp))] at hleads hcopied
  exact ⟨h₁₂.trans hleads, by rw [hcopied]; rfl⟩

theorem copy_writes {p : Path} {u : Unit} (h : copy source p config year w = .ok u w') :
    w'.tree.file? (p.location w.current) = (copied config year w source p).2 := by
  rw [(copy_leads h).1.files, overlay, overlay]
  exact if_pos rfl

def mirrored (config : Config) (year : Nat) (w : Workspace) (source destination : Path)
    (ways : List Location) : Changes :=
  ways.map fun way => copied config year w (along source way) (along destination way)

theorem copyAll_leads (ways : List Location)
    (hapart : ∀ a ∈ ways, ∀ b ∈ ways, (along destination a).location w.current ≠
      (along source b).location w.current) {u : Unit}
    (h : ways.forM (fun way => copy (along source way) (along destination way) config year) w =
      .ok u w') :
    w.Leads (fun _ => True) (mirrored config year w source destination ways) w' ∧
      ∀ x ∈ mirrored config year w source destination ways, x.2.isSome := by
  induction ways generalizing w with
  | nil =>
    obtain ⟨-, rfl⟩ := Action.pure_eq_ok.mp h
    exact ⟨.refl w _, by simp [mirrored]⟩
  | cons way ways ih =>
    change (copy (along source way) (along destination way) config year >>= fun _ =>
      ways.forM fun way => copy (along source way) (along destination way) config year) w = _ at h
    obtain ⟨u₁, v, hcopy, hrest⟩ := Action.bind_eq_ok.mp h
    obtain ⟨hleads, hsome⟩ := copy_leads hcopy
    have hsame : mirrored config year v source destination ways =
        mirrored config year w source destination ways := by
      apply List.map_congr_left
      intro b hb
      apply copied_congr config year _ hleads.current
      apply hleads.file_untouched
      simpa [copied] using hapart way (by simp) b (by simp [hb])
    have hrec := ih (fun a ha b hb => by
      rw [hleads.current]
      exact hapart a (by simp [ha]) b (by simp [hb])) hrest
    rw [hsame] at hrec
    refine ⟨hleads.trans hrec.1, ?_⟩
    rw [mirrored, List.map_cons, List.forall_mem_cons]
    exact ⟨hsome, hrec.2⟩

theorem copyTree_ways {paths : List Path}
    (h : copyTree source destination config year w = .ok paths w') :
    ∃ (ways : List Location) (u : Unit), ways.Nodup ∧
      (∀ way, way ∈ ways ↔ FileBelow w source way ∧ way.any transpiled = false) ∧
      paths = ways.map (along destination) ∧
      ways.forM (fun way => copy (along source way) (along destination way) config year) w =
        .ok u w' := by
  obtain ⟨found, u, hfound, hpaths, hcopy⟩ := copyTree_steps h
  obtain ⟨hnodup, hmem⟩ := filesBelow_found hfound
  refine ⟨_, u, hnodup.filter _, fun way => ?_, hpaths, hcopy⟩
  rw [List.mem_filter, hmem, Bool.not_eq_true']

/-- Mirroring returns, each once, the places of the files that no name on the way leaves to the
transpiler. Of the files with another name it misses exactly those in a directory that is named so.
What it returned holds what a copy leaves there, and all other files are as they were. -/
theorem copyTree_mirrors (source destination : Path) (config : Config) (year : Nat)
    (w w' : Workspace) (paths : List Path)
    (hapart : ∀ way, FileBelow w source way →
      ¬ source.location w.current <+: (along destination way).location w.current)
    (h : copyTree source destination config year w = .ok paths w') :
    paths.Nodup ∧
    (∀ p, p ∈ paths ↔
      ∃ way, FileBelow w source way ∧ way.any transpiled = false ∧ p = along destination way) ∧
    (∀ way, FileBelow w source way → endTranspiled way = false →
      (along destination way ∈ paths ↔ way.dropLast.any transpiled = false)) ∧
    (∀ way, along destination way ∈ paths →
      (w'.tree.file? ((along destination way).location w.current)).isSome ∧
      w'.tree.file? ((along destination way).location w.current) =
        (w.tree.file? ((along source way).location w.current)).bind
          (content? config year (along destination way)) ∧
      ∀ v v' u, v.current = w.current →
        v.tree.file? ((along source way).location w.current) =
          w.tree.file? ((along source way).location w.current) →
        copy (along source way) (along destination way) config year v = .ok u v' →
        v'.tree.file? ((along destination way).location w.current) =
          w'.tree.file? ((along destination way).location w.current)) ∧
    ∀ l, (∀ p ∈ paths, p.location w.current ≠ l) → w'.tree.file? l = w.tree.file? l := by
  obtain ⟨ways, u, hnodup, hways, rfl, hcopy⟩ := copyTree_ways h
  obtain ⟨hleads, hfilled⟩ := copyAll_leads ways (fun a ha b hb heq => by
    apply hapart a ((hways a).mp ha).1
    rw [heq, location_along]
    exact List.prefix_append _ _) hcopy
  have hmem (way : Location) : along destination way ∈ ways.map (along destination) ↔
      FileBelow w source way ∧ way.any transpiled = false := by
    rw [List.mem_map_of_injective fun _ _ => along_injective, hways]
  refine ⟨hnodup.map fun _ _ => along_injective, fun p => ?_, fun way hfile hend => ?_,
    fun way hway => ?_, fun l hl => ?_⟩
  · simp only [List.mem_map, hways, and_assoc, eq_comm]
  · rw [hmem, and_iff_right hfile, any_transpiled hfile.2.1, hend, Bool.or_false]
  · obtain ⟨x, hx, hplace, hvalue⟩ := overlay_at
      (mirrored config year w source destination ways) w.tree.file?
      ((along destination way).location w.current)
      ⟨_, List.mem_map_of_mem ((hways way).mpr ((hmem way).mp hway)), rfl⟩
    have hfile := (hleads.files _).trans hvalue
    obtain ⟨other, -, rfl⟩ := List.mem_map.mp hx
    obtain rfl := way_of_location hplace
    refine ⟨by rw [hfile]; exact hfilled _ hx, hfile, fun v v' u hcurrent hsame hone => ?_⟩
    have hwrites := copy_writes hone
    rw [copied_congr config year _ hcurrent hsame, hcurrent] at hwrites
    rw [hwrites, hfile]
  · apply hleads.file_untouched
    simpa [mirrored, copied] using hl

/-! A directory with a hint in it, and with code in a directory that is named like a source. -/

def sampleHint : Name := ⟨"hint.txt".toList, by decide⟩

def sampleLibrary : Name := ⟨"lib.ts".toList, by decide⟩

def sampleCode : Name := ⟨"hint.lua".toList, by decide⟩

def sampleTree : Tree :=
  (Except.toOption do
    let t ← Tree.empty.makeDirectory [Scope.client.name]
    let t ← t.makeDirectory [Scope.client.name, sampleLibrary]
    let t ← t.writeFile [Scope.client.name, sampleLibrary, sampleCode] (Text.encode "hint".toList)
    t.writeFile [Scope.client.name, sampleHint] (Text.encode "hint".toList)).getD .empty

def sampleSource : Path := Path.ofLocation [Scope.client.name]

def sampleDestination : Path := Path.ofLocation [Layout.mediaName]

theorem sample_apart (way : Location) : ¬ sampleSource.location [] <+:
    (along sampleDestination way).location [] := by
  rw [location_along, sampleSource, sampleDestination, Path.location_ofLocation,
    Path.location_ofLocation, List.singleton_append, List.cons_prefix_cons]
  exact fun h => absurd h.1 (by decide)

theorem sample_copied : ((copyTree sampleSource sampleDestination {} 2024).result?
    { tree := sampleTree }).isSome = true := by
  decide +kernel

theorem sample_mirrored : ∃ paths w', copyTree sampleSource sampleDestination {} 2024
    { tree := sampleTree } = .ok paths w' ∧ along sampleDestination [sampleHint] ∈ paths ∧
      along sampleDestination [sampleLibrary, sampleCode] ∉ paths ∧
      w'.tree.file? [Layout.mediaName, sampleHint] = some (Text.encode "hint".toList) := by
  obtain ⟨⟨paths, w'⟩, hresult⟩ := Option.isSome_iff_exists.mp sample_copied
  have h := Action.result_eq_some.mp hresult
  obtain ⟨-, -, hmissed, hcontent, -⟩ :=
    copyTree_mirrors _ _ _ _ _ _ _ (fun way _ => sample_apart way) h
  have hhint := (hmissed [sampleHint] (by decide +kernel) (by decide)).mpr (by decide)
  refine ⟨paths, w', h, hhint, ?_, ?_⟩
  · rw [hmissed [sampleLibrary, sampleCode] (by decide +kernel) (by decide)]
    decide
  · refine Eq.trans ?_ ((hcontent [sampleHint] hhint).2.1.trans (by decide +kernel))
    rfl

theorem sample_directory_missed : ¬ ∀ (source destination : Path) (config : Config) (year : Nat)
    (w w' : Workspace) (paths : List Path),
    (∀ way, FileBelow w source way →
      ¬ source.location w.current <+: (along destination way).location w.current) →
    copyTree source destination config year w = .ok paths w' →
    ∀ way, FileBelow w source way → endTranspiled way = false →
      along destination way ∈ paths := by
  intro hall
  obtain ⟨⟨paths, w'⟩, hresult⟩ := Option.isSome_iff_exists.mp sample_copied
  have h := Action.result_eq_some.mp hresult
  have hmissed := hall _ _ _ _ _ _ _ (fun way _ => sample_apart way) h [sampleLibrary, sampleCode]
    (by decide +kernel) (by decide)
  have hnone : ((copyTree sampleSource sampleDestination {} 2024).result?
      { tree := sampleTree }).map Prod.fst = some [along sampleDestination [sampleHint]] := by
    decide +kernel
  rw [hresult, Option.map_some, Option.some.injEq] at hnone
  dsimp only at hnone
  rw [hnone] at hmissed
  exact absurd hmissed (by decide)

end ModBuild.Asset
