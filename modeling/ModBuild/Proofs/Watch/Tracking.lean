import ModBuild.Proofs.Watch.Batch

/-!
# Which directories are known

A watcher starts with the directories below its own, and every batch adds what is
new and takes away what is removed. What is taken away goes after what is added,
with everything in it; so a directory that is there again although its removal is
reported is not known any more.
-/

set_option autoImplicit false

namespace ModBuild.Watch

open Asset (along along_eq location_along)

def Below (directory : Path) (v : Workspace) (way : Location) : Prop :=
  way ≠ [] ∧ v.Stands directory ∧
    v.tree.get? (directory.location v.current ++ way) = some .directory

def Exact (x : Watcher) (v : Workspace) : Prop :=
  ∀ d, d ∈ x.known ↔ ∃ way, Below x.directory v way ∧ d = (along x.directory way).print

/-- A batch reports every directory that was created or removed since an earlier
workspace, at paths that the file system takes; a new directory that it reports is
one below the watched directory. -/
structure Accounts (directory : Path) (u v : Workspace) (changes : List Change) : Prop where
  created : ∀ way, Below directory v way → ¬ Below directory u way →
    ∃ c ∈ changes, c.kind = .added ∧ c.absolute v.current = along directory way
  removed : ∀ way, Below directory u way → ¬ Below directory v way →
    ∃ c ∈ changes, c.kind = .deleted ∧ c.absolute v.current = along directory way
  inside : ∀ c ∈ changes, c.kind = .added → v.Stands (c.absolute v.current) →
    ∃ way, way ≠ [] ∧ c.absolute v.current = along directory way
  fits : ∀ c ∈ changes, c.kind ≠ .deleted → (c.absolute v.current).Fits

def Clear (directory : Path) (u v : Workspace) (changes : List Change) : Prop :=
  ∀ c ∈ changes, c.kind = .deleted → ∀ way, c.absolute v.current = along directory way →
    Below directory u way → ¬ Below directory v way

structure Moment where
  workspace : Workspace
  changes : List Change

/-- Every batch of a sequence reports what happened since the one before it. -/
def Accounted (directory : Path) : Workspace → List Moment → Prop
  | _, [] => True
  | u, m :: rest =>
    Accounts directory u m.workspace m.changes ∧ Accounted directory m.workspace rest

def Cleared (directory : Path) : Workspace → List Moment → Prop
  | _, [] => True
  | u, m :: rest => Clear directory u m.workspace m.changes ∧ Cleared directory m.workspace rest

/-- Every batch of a sequence is told apart, and after each of them what is known
are the directories that are there. -/
def Tracks : Watcher → List Moment → Prop
  | _, [] => True
  | x, m :: rest => ∃ events y, x.observe m.changes m.workspace = .ok (events, y) m.workspace ∧
      Exact y m.workspace ∧ Tracks y rest

section

variable {directory : Path} {u v : Workspace} {way : Location} {x : Watcher}
  {changes : List Change} {known : List Text}

theorem Below.outer {a b : Location} (ha : a ≠ []) (h : Below directory v (a ++ b)) :
    Below directory v a := by
  obtain ⟨-, hs, hget⟩ := h
  refine ⟨ha, hs, ?_⟩
  by_cases hb : b = []
  · rwa [hb, List.append_nil] at hget
  · rw [← List.append_assoc] at hget
    exact Tree.get_on_way hb (by rw [hget]; simp)

theorem print_injective {p q : Path} (h : p.print = q.print) : p = q := by
  rw [← Path.parse_print p, h, Path.parse_print]

theorem along_injective {a b : Location} (h : along directory a = along directory b) : a = b := by
  have hlocation := congrArg (Path.location []) h
  exact Asset.way_of_location hlocation

theorem isWithin_along {a b : Location} :
    (along directory a).isWithin (along directory b) = true ↔ b <+: a := by
  rw [Path.isWithin_iff, along_eq, along_eq, List.prefix_append_right_inj]
  refine ⟨fun h => ?_, fun h => ⟨rfl, h.map _⟩⟩
  obtain ⟨c, hc, hmap⟩ := List.prefix_map_iff.mp h.2
  rwa [List.map_injective_iff.mpr (fun _ _ => Segment.name.inj) hmap]

theorem stands_iff_below (hp : (along directory way).Fits) (hway : way ≠ []) :
    v.Stands (along directory way) ↔ Below directory v way := by
  constructor
  · intro hs
    have hget := hs.directory
    rw [location_along] at hget
    exact ⟨hway, hs.outer, hget⟩
  · intro ⟨_, hs, hget⟩
    obtain ⟨b, hb⟩ := Workspace.isDirectory_of_fits (w := v) hp
    rw [Workspace.Stands, hb, (Workspace.isDirectory_along hs way hp.1 hb).mpr hget]

/-! ### The start -/

theorem mem_directoriesBelow (hs : v.Stands directory) (d : Text) :
    d ∈ Watcher.directoriesBelow directory (v.tree.below (directory.location v.current)) ↔
      ∃ way, Below directory v way ∧ d = (along directory way).print := by
  rw [Watcher.directoriesBelow, List.mem_filterMap]
  constructor
  · rintro ⟨⟨way, e⟩, hm, he⟩
    rw [Tree.mem_below_iff] at hm
    cases e with
    | directory => exact ⟨way, ⟨hm.1, hs, hm.2⟩, (Option.some.inj he).symm⟩
    | file b => cases he
  · rintro ⟨way, ⟨hway, -, hget⟩, rfl⟩
    exact ⟨(way, .directory), (Tree.mem_below_iff _ _ _ _).mpr ⟨hway, hget⟩, rfl⟩

/-- A watcher that does not run starts, and knows the directories that are there,
or what it knew if its own directory is not there. -/
theorem start_ok (hd : x.directory.Fits) (hidle : x.running = false) :
    ∃ u', x.start u = .ok { x with
      known := if u.Stands x.directory then
          Watcher.directoriesBelow x.directory (u.tree.below (x.directory.location u.current))
        else x.known
      running := true } u' := by
  obtain ⟨b, hb⟩ := Workspace.isDirectory_of_fits (w := u) hd
  have hdirectory : Action.isDirectory x.directory u = .ok b u := Action.ask_eq_ok.mpr ⟨hb, rfl⟩
  unfold Watcher.start
  simp only [hidle, Bool.false_eq_true, if_false]
  rw [Action.bind_of_ok hdirectory]
  cases b with
  | true =>
    have hbelow : u.below x.directory = .ok (u.tree.below (x.directory.location u.current)) := by
      rw [Workspace.below, hb]
      simp only [bind, Except.bind, Workspace.Stands.resolve hb]
      rfl
    have hask : Action.ask (·.below x.directory) u = .ok _ u :=
      Action.ask_eq_ok.mpr ⟨hbelow, rfl⟩
    have hs : u.Stands x.directory := hb
    rw [if_pos rfl, Action.bind_of_ok hask, if_pos hs]
    exact ⟨_, rfl⟩
  | false =>
    have hs : ¬ u.Stands x.directory := by
      rw [Workspace.Stands, hb]
      simp
    rw [if_neg Bool.false_ne_true, if_neg hs]
    exact ⟨_, rfl⟩

theorem start_exact (hd : x.directory.Fits) (hidle : x.running = false) :
    ∃ y u', x.start u = .ok y u' ∧ y.directory = x.directory ∧
      (Exact y u ↔ u.Stands x.directory ∨ x.known = []) := by
  obtain ⟨u', hstart⟩ := start_ok (u := u) hd hidle
  refine ⟨_, u', hstart, rfl, ?_⟩
  unfold Exact
  dsimp only
  by_cases hs : u.Stands x.directory
  · simp only [hs, if_true, true_or, iff_true]
    exact mem_directoriesBelow hs
  · simp only [hs, if_false, false_or]
    have hnone (way : Location) : ¬ Below x.directory u way := fun h => hs h.2.1
    simp only [hnone, false_and, exists_false, iff_false]
    exact List.eq_nil_iff_forall_not_mem.symm

/-! ### A batch -/

theorem newDirectory_mem {t : Text} :
    .newDirectory t ∈ changes.map (Change.sighting known v) ↔
      ∃ c ∈ changes, c.kind = .added ∧ v.Stands (c.absolute v.current) ∧
        t = (c.absolute v.current).print := by
  rw [List.mem_map]
  apply exists_congr
  intro c
  apply and_congr_right
  intro _
  unfold Change.sighting
  cases hk : c.kind with
  | added => by_cases h : v.Stands (c.absolute v.current) <;> simp [h, eq_comm]
  | modified => by_cases h : v.Stands (c.absolute v.current) <;> simp [h]
  | deleted => dsimp only; split <;> simp

theorem removedDirectory_mem {t : Text} :
    .removedDirectory t ∈ changes.map (Change.sighting known v) ↔
      ∃ c ∈ changes, c.kind = .deleted ∧ t ∈ known ∧ t = (c.absolute v.current).print := by
  rw [List.mem_map]
  apply exists_congr
  intro c
  apply and_congr_right
  intro _
  unfold Change.sighting
  cases hk : c.kind with
  | added => dsimp only; split <;> simp
  | modified => dsimp only; split <;> simp
  | deleted =>
    dsimp only
    by_cases h : (c.absolute v.current).print ∈ known
    · rw [if_pos (List.contains_iff_mem.mpr h)]
      constructor
      · rintro ⟨⟩
        exact ⟨rfl, h, rfl⟩
      · rintro ⟨-, -, rfl⟩
        rfl
    · rw [if_neg (mt List.contains_iff_mem.mp h)]
      refine ⟨nofun, ?_⟩
      rintro ⟨-, ht, rfl⟩
      exact absurd ht h

/-- What is known after a batch is below the directory: what is gone was deleted,
and what is new is there. -/
theorem known_sound (ha : Accounts directory u v changes)
    (hx : ∀ d ∈ known, ∃ way, Below directory u way ∧ d = (along directory way).print) {d : Text}
    (h : d ∈ Watcher.knownAfter known (changes.map (Change.sighting known v))) :
    ∃ way, Below directory v way ∧ d = (along directory way).print := by
  obtain ⟨hd | hnew, hkept⟩ := Watcher.mem_knownAfter.mp h
  · obtain ⟨way, hu, rfl⟩ := hx d hd
    refine ⟨way, ?_, rfl⟩
    by_contra hv
    obtain ⟨c, hc, hk, hpath⟩ := ha.removed way hu hv
    have hremoved := removedDirectory_mem.mpr ⟨c, hc, hk, hd, by rw [hpath]⟩
    have hout := hkept _ hremoved
    rw [Path.parse_print, isWithin_along.mpr (List.prefix_refl way)] at hout
    cases hout
  · obtain ⟨c, hc, hk, hs, rfl⟩ := newDirectory_mem.mp hnew
    obtain ⟨way, hway, hpath⟩ := ha.inside c hc hk hs
    have hfits := ha.fits c hc (by simp [hk])
    rw [hpath] at hs hfits ⊢
    exact ⟨way, (stands_iff_below hfits hway).mp hs, rfl⟩

theorem known_grown (ha : Accounts directory u v changes)
    (hx : ∀ way, Below directory u way → (along directory way).print ∈ known)
    (hv : Below directory v way) :
    (along directory way).print ∈ known ∨
      .newDirectory (along directory way).print ∈ changes.map (Change.sighting known v) := by
  by_cases hu : Below directory u way
  · exact .inl (hx way hu)
  · obtain ⟨c, hc, hk, hpath⟩ := ha.created way hv hu
    have hfits := ha.fits c hc (by simp [hk])
    rw [hpath] at hfits
    have hs := (stands_iff_below hfits hv.1).mpr hv
    exact .inr (newDirectory_mem.mpr ⟨c, hc, hk, by rwa [hpath], by rw [hpath]⟩)

/-- After a batch that reports what happened, exactly the directories that are
there are known, if and only if none of them was reported as deleted. -/
theorem observe_exact (hx : Exact x u) (ha : Accounts x.directory u v changes) :
    ∃ events y, x.observe changes v = .ok (events, y) v ∧ y.directory = x.directory ∧
      (Exact y v ↔ Clear x.directory u v changes) := by
  have hanswered : ∀ c ∈ changes, c.Answered v :=
    fun c hc hk => Workspace.isDirectory_of_fits (ha.fits c hc hk)
  have hknown (way : Location) : (along x.directory way).print ∈ x.known ↔
      Below x.directory u way := by
    rw [hx]
    constructor
    · rintro ⟨way', h, heq⟩
      rwa [along_injective (print_injective heq)]
    · exact fun h => ⟨way, h, rfl⟩
  refine ⟨_, _, observe_answered hanswered, rfl, fun h c hc hk way hpath hu hv => ?_,
    fun hclear d => ⟨known_sound ha fun d hd => (hx d).mp hd, ?_⟩⟩
  · -- the directory itself was taken away by the report
    obtain ⟨-, hkept⟩ := Watcher.mem_knownAfter.mp ((h _).mpr ⟨way, hv, rfl⟩)
    have hremoved := removedDirectory_mem.mpr ⟨c, hc, hk, (hknown way).mpr hu, by rw [hpath]⟩
    have hout := hkept _ hremoved
    rw [Path.parse_print, isWithin_along.mpr (List.prefix_refl way)] at hout
    cases hout
  · rintro ⟨way, hv, rfl⟩
    refine Watcher.mem_knownAfter.mpr
      ⟨known_grown ha (fun way => (hknown way).mpr) hv, fun r hr => ?_⟩
    obtain ⟨c, hc, hk, hin, rfl⟩ := removedDirectory_mem.mp hr
    obtain ⟨outer, hu, heq⟩ := (hx _).mp hin
    have hpath := print_injective heq
    rw [Path.parse_print, Path.parse_print, hpath, Bool.eq_false_iff, ne_eq, isWithin_along]
    rintro ⟨more, rfl⟩
    exact hclear c hc hk outer hpath hu (hv.outer hu.1)

theorem tracks_iff (hx : Exact x u) (moments : List Moment)
    (ha : Accounted x.directory u moments) :
    Tracks x moments ↔ Cleared x.directory u moments := by
  induction moments generalizing x u with
  | nil => exact iff_of_true trivial trivial
  | cons m rest ih =>
    obtain ⟨events, y, hobserve, hdirectory, hiff⟩ := observe_exact hx ha.1
    have hrest (hy : Exact y m.workspace) : Tracks y rest ↔
        Cleared x.directory m.workspace rest := by
      rw [← hdirectory] at ha ⊢
      exact ih hy ha.2
    constructor
    · rintro ⟨events', y', hobserve', hy, htracks⟩
      rw [hobserve] at hobserve'
      cases hobserve'
      exact ⟨hiff.mp hy, (hrest hy).mp htracks⟩
    · rintro ⟨hclear, hcleared⟩
      have hy := hiff.mpr hclear
      exact ⟨events, y, hobserve, hy, (hrest hy).mpr hcleared⟩

end

/-- A watcher that does not run starts, and what it knows then is exact if and only
if its directory is there or it knew nothing. From then on every batch of a sequence
that reports what was created and removed is told apart, and what is known is exact
after each of them if and only if no batch reports a directory as deleted that was
there before it and is there again. -/
theorem tracking_exact_iff (watcher : Watcher) (u : Workspace) (moments : List Moment)
    (hd : watcher.directory.Fits) (hidle : watcher.running = false)
    (ha : Accounted watcher.directory u moments) :
    ∃ x u', watcher.start u = .ok x u' ∧
      (Exact x u ↔ u.Stands watcher.directory ∨ watcher.known = []) ∧
      (Exact x u → (Tracks x moments ↔ Cleared watcher.directory u moments)) := by
  obtain ⟨x, u', hstart, hdirectory, hexact⟩ := start_exact (u := u) hd hidle
  refine ⟨x, u', hstart, hexact, fun hx => ?_⟩
  rw [← hdirectory] at ha ⊢
  exact tracks_iff hx moments ha

/-! The sample project with a directory that comes and goes, and with one that is
removed and made again. -/

def sampleInner : Location := [Scope.client.name, ⟨"ui".toList, by decide⟩]

def sampleGrown : Workspace where
  tree := (sampleProject.tree.makeDirectory (Layout.sourceName :: sampleInner)).toOption.getD .empty

def sampleRemade : Workspace where
  tree := ((sampleProject.tree.prune [Layout.sourceName, Scope.client.name]).makeDirectory
    [Layout.sourceName, Scope.client.name]).toOption.getD .empty

def sampleMoments : List Moment :=
  [⟨sampleGrown, [⟨.added, "src/client/ui".toList⟩]⟩,
    ⟨sampleProject, [⟨.deleted, "src/client/ui".toList⟩]⟩]

def sampleRemaking : List Change :=
  [⟨.deleted, "src/client".toList⟩, ⟨.added, "src/client".toList⟩]

instance (directory : Path) (v : Workspace) (way : Location) :
    Decidable (Below directory v way) := by
  unfold Below; infer_instance

theorem Accounts.of_entries {directory : Path} {u v : Workspace} {changes : List Change}
    (ways : List Location)
    (hcreated : ∀ e ∈ v.tree.below (directory.location v.current), Below directory v e.1 →
      ¬ Below directory u e.1 → ∃ c ∈ changes, c.kind = .added ∧
        c.absolute v.current = along directory e.1)
    (hremoved : ∀ e ∈ u.tree.below (directory.location u.current), Below directory u e.1 →
      ¬ Below directory v e.1 → ∃ c ∈ changes, c.kind = .deleted ∧
        c.absolute v.current = along directory e.1)
    (hinside : ∀ c ∈ changes, ∃ way ∈ ways, way ≠ [] ∧ c.absolute v.current = along directory way)
    (hfits : ∀ c ∈ changes, (c.absolute v.current).Fits) :
    Accounts directory u v changes where
  created way hv hu :=
    hcreated (way, .directory) ((Tree.mem_below_iff _ _ _ _).mpr ⟨hv.1, hv.2.2⟩) hv hu
  removed way hu hv :=
    hremoved (way, .directory) ((Tree.mem_below_iff _ _ _ _).mpr ⟨hu.1, hu.2.2⟩) hu hv
  inside c hc _ _ := by
    obtain ⟨way, -, h⟩ := hinside c hc
    exact ⟨way, h⟩
  fits c hc _ := hfits c hc

theorem sample_tracked : ∃ x u', sampleWatcher.start sampleProject = .ok x u' ∧
    Exact x sampleProject ∧ Tracks x sampleMoments := by
  have ha : Accounted sampleWatcher.directory sampleProject sampleMoments :=
    ⟨.of_entries [sampleInner] (by decide +kernel) (by decide +kernel) (by decide +kernel)
        (by decide +kernel),
      .of_entries [sampleInner] (by decide +kernel) (by decide +kernel) (by decide +kernel)
        (by decide +kernel), trivial⟩
  obtain ⟨x, u', hstart, hexact, htracks⟩ := tracking_exact_iff sampleWatcher sampleProject
    sampleMoments (by decide +kernel) rfl ha
  have hx := hexact.mpr (.inr rfl)
  refine ⟨x, u', hstart, hx, (htracks hx).mpr ⟨?_, ?_, trivial⟩⟩
  · intro c hc hk
    rw [List.mem_singleton.mp hc] at hk
    cases hk
  · rintro c hc - way hpath -
    rw [List.mem_singleton.mp hc] at hpath
    obtain rfl : sampleInner = way := along_injective (Eq.trans (by decide +kernel) hpath)
    decide +kernel

/-- A directory that was removed and made again between two batches, and is reported
so, is there and is not known; its next removal is taken for that of a file. -/
theorem sample_remade_forgotten : ∃ x u' events y,
    sampleWatcher.start sampleProject = .ok x u' ∧ Exact x sampleProject ∧
      Accounts sampleWatcher.directory sampleProject sampleRemade sampleRemaking ∧
      x.observe sampleRemaking sampleRemade = .ok (events, y) sampleRemade ∧
      events = [⟨.addDir, "/src/client".toList⟩, ⟨.unlinkDir, "/src/client".toList⟩] ∧
      Below sampleWatcher.directory sampleRemade [Scope.client.name] ∧
      "/src/client".toList ∉ y.known ∧ ¬ Exact y sampleRemade ∧
      Change.event? y.known sampleRemade ⟨.deleted, "src/client".toList⟩ =
        some ⟨.unlink, "/src/client".toList⟩ := by
  obtain ⟨u', hstart⟩ := start_ok (x := sampleWatcher) (u := sampleProject) (by decide +kernel) rfl
  obtain ⟨x, u', hstart', -, hexact⟩ := start_exact (x := sampleWatcher) (u := sampleProject)
    (by decide +kernel) rfl
  obtain ⟨rfl, rfl⟩ := EStateM.Result.ok.inj (hstart'.symm.trans hstart)
  have hfits : ∀ c ∈ sampleRemaking, (c.absolute sampleRemade.current).Fits := by decide +kernel
  have hanswered : ∀ c ∈ sampleRemaking, c.Answered sampleRemade :=
    fun c hc _ => Workspace.isDirectory_of_fits (hfits c hc)
  have hbelow : Below sampleWatcher.directory sampleRemade [Scope.client.name] := by
    decide +kernel
  refine ⟨_, _, _, _, hstart, hexact.mpr (.inr rfl),
    .of_entries [[Scope.client.name]] (by decide +kernel) (by decide +kernel) (by decide +kernel)
      hfits, observe_answered hanswered, by decide +kernel, hbelow, by decide +kernel, ?_,
    by decide +kernel⟩
  intro hy
  exact absurd ((hy _).mpr ⟨_, hbelow, rfl⟩) (by decide +kernel)

end ModBuild.Watch
