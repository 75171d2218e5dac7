import ModBuild.Proofs.Build.Assets

/-!
# The layer of the libraries

Which version of a library is copied is read off the directory of the typings,
where a build changes nothing. The runtime library is copied if there is one.
-/

set_option autoImplicit false

namespace ModBuild

theorem Version.mem_of_sort {names sorted : List Text} (h : sort names = .ok sorted) {v : Text}
    (hv : v ∈ sorted) : v ∈ names := by
  rw [sort] at h
  cases hk : names.mapM (fun name => return (← read name, name)) with
  | error e => rw [hk] at h; cases h
  | ok keyed =>
    rw [hk] at h
    cases h
    obtain ⟨x, hx, rfl⟩ := List.mem_map.mp hv
    rw [List.mem_mergeSort] at hx
    obtain ⟨name, hname, hread⟩ := (mapM_answers hk).2 x hx
    cases hr : read name with
    | error e => rw [hr] at hread; cases hread
    | ok p =>
      rw [hr] at hread
      cases hread
      exact hname

theorem Version.mem_of_latest {names : List Text} {v : Text} (h : latest? names = .ok (some v)) :
    v ∈ names := by
  rw [latest?] at h
  cases hs : sort names with
  | error e => rw [hs] at h; cases h
  | ok sorted =>
    rw [hs] at h
    exact mem_of_sort hs (List.mem_of_getLast? (Except.ok.inj h))

namespace Library

theorem names_valid {library : Text} (h : library ∈ names) :
    (∃ n : Name, n.text = library ∧ '\x00' ∉ n.text) ∧ ∃ n : Name, n.text = fileName library := by
  have hn : ∀ t ∈ names, Name.Valid t ∧ '\x00' ∉ t ∧ Name.Valid (fileName t) := by decide
  obtain ⟨hv, hnull, hf⟩ := hn library h
  exact ⟨⟨⟨library, hv⟩, rfl, hnull⟩, ⟨⟨_, hf⟩, rfl⟩⟩

theorem version_valid {listing : Entries} {library v : Text} (h : v ∈ versions listing library) :
    ∃ n : Name, n.text = v := by
  obtain ⟨⟨way, e⟩, -, hw⟩ := List.mem_filterMap.mp h
  dsimp only at hw
  split at hw
  · split at hw
    · exact ⟨_, Option.some.inj hw⟩
    · cases hw
  · cases hw

def source? (layout : Layout) (w : Workspace) (library : Text) : Option Path :=
  match Version.latest? (versions
    (w.tree.below ((layout.typings / library).location w.current)) library) with
  | .ok version => version.map fun v => layout.typings / library / v / fileName library
  | .error _ => none

end Library

namespace Build

variable {layout : Layout} {config : Config} {year : Nat} {w w' : Workspace}

def libraryLayer (layout : Layout) (config : Config) (year : Nat) (w : Workspace)
    (library : Text) : Changes :=
  ((Library.source? layout w library).map fun source =>
    Asset.copied config year w source
      (layout.outputDirectory .shared / Library.fileName library)).toList

def runtimeSource (layout : Layout) : Path := layout.scripts / Emission.runtimeFile

def runtimeLayer (layout : Layout) (config : Config) (year : Nat) (w : Workspace) : Changes :=
  if (w.tree.file? ((runtimeSource layout).location w.current)).isSome then
    [Asset.copied config year w (runtimeSource layout)
      (layout.outputDirectory .shared / Emission.runtimeFile)]
  else []

theorem library_along (layout : Layout) {library : Text} (h : library ∈ Library.names) :
    ∃ n : Name, n.text = library ∧
      layout.typings / library = Asset.along layout.root [Layout.typingsName, n] ∧
      '\x00' ∉ n.text := by
  obtain ⟨⟨n, rfl, hnull⟩, -⟩ := Library.names_valid h
  refine ⟨n, rfl, ?_, hnull⟩
  rw [Asset.div_name, Layout.typings_eq, Asset.along_along]
  rfl

theorem typings_outside {library : Text} (h : library ∈ Library.names) {w : Workspace}
    {source : Path} (hs : Library.source? layout w library = some source) (current : Location) :
    ¬ layout.Inside current (source.location current) := by
  rw [Library.source?] at hs
  split at hs
  · next version hv =>
    obtain ⟨v, rfl, rfl⟩ := Option.map_eq_some_iff.mp hs
    obtain ⟨n, rfl⟩ := Library.version_valid (Version.mem_of_latest hv)
    obtain ⟨-, f, hf⟩ := Library.names_valid h
    obtain ⟨m, -, hm, -⟩ := library_along layout h
    rw [hm, Asset.div_name, Asset.along_along, ← hf, Asset.div_name, Asset.along_along,
      Asset.location_along]
    exact Layout.not_inside (by decide) _
  · cases hs

theorem listing_kept (h : layout.Spares w w') {library : Text} (hl : library ∈ Library.names) :
    w'.tree.below ((layout.typings / library).location w'.current) =
      w.tree.below ((layout.typings / library).location w.current) := by
  obtain ⟨n, -, hn, -⟩ := library_along layout hl
  rw [h.current]
  apply Tree.below_congr
  intro way _
  apply h.entry
  rw [hn, Asset.location_along, List.append_assoc]
  exact Layout.not_ground (by decide) (by decide) _

theorem source_kept (h : layout.Spares w w') {library : Text} (hl : library ∈ Library.names) :
    Library.source? layout w' library = Library.source? layout w library := by
  rw [Library.source?, Library.source?, listing_kept h hl]

theorem libraryLayer_eq (h : layout.Spares w w') {library : Text}
    (hl : library ∈ Library.names) :
    libraryLayer layout config year w' library = libraryLayer layout config year w library := by
  rw [libraryLayer, libraryLayer, source_kept h hl]
  cases hs : Library.source? layout w library with
  | none => rfl
  | some source => simp [copied_eq h config year _ (typings_outside hl hs w.current)]

theorem runtimeSource_eq (layout : Layout) : ∃ n : Name, n.text = Emission.runtimeFile ∧
    runtimeSource layout = Asset.along layout.root [Layout.scriptsName, n] := by
  refine ⟨⟨Emission.runtimeFile, by decide⟩, rfl, ?_⟩
  have h := Asset.div_name layout.scripts ⟨Emission.runtimeFile, by decide⟩
  rwa [Layout.scripts_eq, Asset.along_along, ← Layout.scripts_eq] at h

theorem runtime_outside (layout : Layout) (current : Location) :
    ¬ layout.Inside current ((runtimeSource layout).location current) := by
  obtain ⟨n, -, hn⟩ := runtimeSource_eq layout
  rw [hn, Asset.location_along]
  exact Layout.not_inside (by decide) _

theorem runtimeLayer_eq (h : layout.Spares w w') :
    runtimeLayer layout config year w' = runtimeLayer layout config year w := by
  rw [runtimeLayer, runtimeLayer, copied_eq h config year _ (runtime_outside layout _), h.current,
    h.file _ (runtime_outside layout _)]

theorem shared_along (layout : Layout) (n : Name) :
    layout.outputDirectory .shared / n.text =
      Asset.along layout.output [Scope.shared.name, n] := by
  rw [Asset.div_name, Layout.outputDirectory_eq, Asset.along_along]
  rfl

theorem listing_found (hs : w.Stands layout.root) {library : Text} (hl : library ∈ Library.names)
    {listing : Entries} (h : w.below (layout.typings / library) = .ok listing) :
    listing = w.tree.below ((layout.typings / library).location w.current) := by
  obtain ⟨n, -, hn, hnull⟩ := library_along layout hl
  have hprint : '\x00' ∉ (Asset.along layout.root [Layout.typingsName, n]).print := by
    apply Asset.null_along (Workspace.resolve_ok hs.resolve).1
    simpa using ⟨by decide, hnull⟩
  rw [hn] at h ⊢
  rw [Workspace.below_along hs _ hprint h, Asset.location_along]

theorem latest_ok (hs : w.Stands layout.root) {library : Text} (hl : library ∈ Library.names)
    {r : Option Path} (h : Library.latest? layout.typings library w = .ok r w') :
    w' = w ∧ r = Library.source? layout w library := by
  unfold Library.latest? at h
  obtain ⟨listing, v, hask, h⟩ := Action.bind_eq_ok.mp h
  obtain ⟨hbelow, rfl⟩ := Action.ask_eq_ok.mp hask
  rw [Library.source?, ← listing_found hs hl hbelow]
  cases hv : Version.latest? (Library.versions listing library) with
  | error refusal =>
    rw [hv] at h
    exact absurd h Action.throw_ne_ok
  | ok version =>
    rw [hv] at h
    obtain ⟨rfl, rfl⟩ := Action.pure_eq_ok.mp h
    exact ⟨rfl, rfl⟩

theorem copyLatest_laid (hs : w.Stands layout.root) {library : Text}
    (hl : library ∈ Library.names) {r : Option Path}
    (h : Library.copyLatest layout config year library w = .ok r w') :
    Laid layout w (libraryLayer layout config year w library) w' := by
  obtain ⟨-, f, hf⟩ := Library.names_valid hl
  unfold Library.copyLatest at h
  obtain ⟨source, v, hlatest, h⟩ := Action.bind_eq_ok.mp h
  obtain ⟨rfl, hsource⟩ := latest_ok hs hl hlatest
  rw [libraryLayer, ← hsource]
  cases source with
  | none =>
    obtain ⟨_, v', hlog, h⟩ := Action.bind_eq_ok.mp h
    obtain ⟨-, rfl⟩ := Action.pure_eq_ok.mp h
    exact log_laid layout hlog
  | some source =>
    obtain ⟨_, v', hcopy, h⟩ := Action.bind_eq_ok.mp h
    obtain ⟨-, rfl⟩ := Action.pure_eq_ok.mp h
    rw [← hf, shared_along] at hcopy ⊢
    exact copy_laid hs hcopy

theorem copyRuntime_laid (hs : w.Stands layout.root) {r : Option Path}
    (h : Library.copyRuntime layout config year w = .ok r w') :
    Laid layout w (runtimeLayer layout config year w) w' := by
  obtain ⟨n, htext, hn⟩ := runtimeSource_eq layout
  have hprint : '\x00' ∉ (Asset.along layout.root [Layout.scriptsName, n]).print := by
    apply Asset.null_along (Workspace.resolve_ok hs.resolve).1
    simpa [htext] using ⟨by decide, by decide⟩
  unfold Library.copyRuntime at h
  obtain ⟨b, v, hask, h⟩ := Action.bind_eq_ok.mp h
  obtain ⟨hfile, rfl⟩ := Action.ask_eq_ok.mp hask
  change w.isFile (runtimeSource layout) = .ok b at hfile
  rw [hn] at hfile
  have hb := Workspace.isFile_along hs _ hprint hfile
  rw [← Asset.location_along, ← hn] at hb
  rw [runtimeLayer, ← hb]
  cases b with
  | false =>
    obtain ⟨-, rfl⟩ := Action.pure_eq_ok.mp h
    exact .refl layout w
  | true =>
    obtain ⟨_, v', hcopy, h⟩ := Action.bind_eq_ok.mp h
    obtain ⟨-, rfl⟩ := Action.pure_eq_ok.mp h
    have hdest := shared_along layout ⟨Emission.runtimeFile, by decide⟩
    change Asset.copy (runtimeSource layout)
      (layout.outputDirectory .shared / Emission.runtimeFile) config year w = _ at hcopy
    change layout.outputDirectory .shared / Emission.runtimeFile = _ at hdest
    rw [hdest] at hcopy
    rw [if_pos rfl, hdest]
    exact copy_laid hs hcopy

def libraries (layout : Layout) (config : Config) (year : Nat) (w : Workspace) : Changes :=
  Library.names.flatMap (libraryLayer layout config year w) ++
    runtimeLayer layout config year w

theorem libraries_eq (h : layout.Spares w w') :
    libraries layout config year w' = libraries layout config year w := by
  rw [libraries, libraries, runtimeLayer_eq h]
  congr 1
  exact List.flatMap_congr fun library hl => libraryLayer_eq h hl

theorem forM_of_mapM {α β : Type} {f : α → Action β} (xs : List α) {ys : List β}
    (h : xs.mapM f w = .ok ys w') :
    xs.forM (fun x => (do let _ ← f x : Action Unit)) w = .ok () w' := by
  induction xs generalizing w ys with
  | nil =>
    obtain ⟨-, rfl⟩ := Action.pure_eq_ok.mp h
    rfl
  | cons x xs ih =>
    rw [List.mapM_cons] at h
    obtain ⟨y, v, hx, h⟩ := Action.bind_eq_ok.mp h
    obtain ⟨rest, v', hs, h⟩ := Action.bind_eq_ok.mp h
    obtain ⟨-, rfl⟩ := Action.pure_eq_ok.mp h
    have hfirst : (do let _ ← f x : Action Unit) w = .ok () v :=
      Action.bind_eq_ok.mpr ⟨y, v, hx, rfl⟩
    exact Action.bind_eq_ok.mpr ⟨(), v, hfirst, ih hs⟩

theorem copyAll_laid (hs : w.Stands layout.root) {paths : List Path}
    (h : Library.copyAll layout config year w = .ok paths w') :
    Laid layout w (libraries layout config year w) w' := by
  unfold Library.copyAll at h
  obtain ⟨shared, v, hshared, h⟩ := Action.bind_eq_ok.mp h
  obtain ⟨runtime, v', hruntime, h⟩ := Action.bind_eq_ok.mp h
  obtain ⟨-, rfl⟩ := Action.pure_eq_ok.mp h
  have hlibraries := forM_laid (c := libraryLayer layout config year w) _ (Laid.refl layout w)
    ?_ (forM_of_mapM _ hshared)
  · rw [List.nil_append] at hlibraries
    have hrun := copyRuntime_laid (hlibraries.stands hs) hruntime
    rw [runtimeLayer_eq hlibraries.spares] at hrun
    exact hlibraries.trans hrun
  · intro library hl before x x' u hx hstep
    obtain ⟨r, x'', hcopy, hstep⟩ := Action.bind_eq_ok.mp hstep
    obtain ⟨-, rfl⟩ := Action.pure_eq_ok.mp hstep
    have hone := copyLatest_laid (hx.stands hs) hl hcopy
    rwa [libraryLayer_eq hx.spares hl] at hone

end Build

end ModBuild
