import ModBuild.Proofs.Workspace.Directories

/-!
# The directories of a build

Before it reads anything but the manifest, a command makes the directories that
it writes to. That succeeds exactly if each of them can be made where it is, and
it adds nothing but them and what leads to them.
-/

set_option autoImplicit false

namespace ModBuild

open Asset (along location_along)

/-- Below a base, a directory can be made at a way: its path fits, and no file
stands in the way. -/
structure Workspace.Makeable (w : Workspace) (base : Path) (way : Location) : Prop where
  fits : (along base way).Fits
  clear : ∀ a, a <+: way → ∀ b, w.tree.get? (base.location w.current ++ a) ≠ some (.file b)

namespace Action

variable {base : Path} {w v : Workspace} {way : Location}

theorem makeable_leads {D : Location → Prop} (h : w.Leads D [] v) :
    v.Makeable base way ↔ w.Makeable base way := by
  have hfile (l : Location) (b : ByteArray) :
      v.tree.get? l = some (.file b) ↔ w.tree.get? l = some (.file b) := by
    rw [← Tree.file_eq_some, ← Tree.file_eq_some, h.file_untouched (by simp)]
  constructor
  · rintro ⟨hfits, hclear⟩
    refine ⟨hfits, fun a ha b hb => hclear a ha b ?_⟩
    rwa [hfile, h.current]
  · rintro ⟨hfits, hclear⟩
    refine ⟨hfits, fun a ha b hb => hclear a ha b ?_⟩
    rwa [hfile, h.current] at hb

theorem makeable_of_stands (hs : w.Stands (along base way)) : w.Makeable base way := by
  refine ⟨Workspace.fits_of_resolve hs.resolve, ?_⟩
  rintro a ⟨rest, rfl⟩ b hb
  have hdirectory := hs.directory
  rw [location_along, ← List.append_assoc] at hdirectory
  by_cases hrest : rest = []
  · rw [hrest, List.append_nil, hb] at hdirectory
    cases hdirectory
  · rw [Tree.get_below_none hrest (by rw [hb]; simp)] at hdirectory
    cases hdirectory

theorem makeDirectories_iff (hs : w.Stands base) :
    (∃ v, makeDirectories (along base way) w = .ok () v) ↔ w.Makeable base way := by
  constructor
  · rintro ⟨v, h⟩
    have hleads := makeDirectories_leads hs way
    rw [final_of_ok h] at hleads
    exact (makeable_leads hleads).mp (makeable_of_stands (makeDirectories_stands h))
  · rintro ⟨hfits, hclear⟩
    exact makeDirectories_ok hs hfits hclear

def makeAll (base : Path) (ways : List Location) : Action Unit :=
  ways.forM fun way => makeDirectories (along base way)

def OnWays (start : Location) (ways : List Location) (l : Location) : Prop :=
  ∃ way ∈ ways, OnWay start way l

theorem makeAll_cons (base : Path) (way : Location) (ways : List Location) :
    makeAll base (way :: ways) =
      (makeDirectories (along base way) >>= fun _ => makeAll base ways) := rfl

theorem makeAll_leads (hs : w.Stands base) (ways : List Location) :
    w.Leads (OnWays (base.location w.current) ways) [] ((makeAll base ways).final w) := by
  induction ways generalizing w with
  | nil => exact .refl _ _
  | cons way ways ih =>
    rw [makeAll_cons]
    have hfirst := (makeDirectories_leads hs way).mono (E := OnWays (base.location w.current)
      (way :: ways)) fun l hl => ⟨way, by simp, hl⟩
    cases h : makeDirectories (along base way) w with
    | ok u v =>
      rw [final_of_ok h] at hfirst
      rw [final, bind_of_ok h, ← final]
      have hrest := ih (hs.leads hfirst)
      rw [hfirst.current] at hrest
      refine hfirst.trans (hrest.mono ?_)
      rintro l ⟨other, hmem, hl⟩
      exact ⟨other, List.mem_cons_of_mem way hmem, hl⟩
    | error e v =>
      rw [final_of_error h] at hfirst
      rwa [final, bind_of_error h]

theorem makeAll_iff (hs : w.Stands base) (ways : List Location) :
    (∃ v, makeAll base ways w = .ok () v) ↔ ∀ way ∈ ways, w.Makeable base way := by
  induction ways generalizing w with
  | nil => exact ⟨by simp, fun _ => ⟨w, rfl⟩⟩
  | cons way ways ih =>
    rw [List.forall_mem_cons, ← makeDirectories_iff hs]
    have hfirst {v : Workspace} (h : makeDirectories (along base way) w = .ok () v) :
        v.Stands base ∧ ∀ other, v.Makeable base other ↔ w.Makeable base other := by
      have hleads := makeDirectories_leads hs way
      rw [final_of_ok h] at hleads
      exact ⟨hs.leads hleads, fun _ => makeable_leads hleads⟩
    constructor
    · rintro ⟨v', h⟩
      rw [makeAll_cons] at h
      obtain ⟨u, v, hmake, h⟩ := bind_eq_ok.mp h
      obtain ⟨hstands, hsame⟩ := hfirst hmake
      exact ⟨⟨v, hmake⟩, fun other hmem => (hsame other).mp ((ih hstands).mp ⟨v', h⟩ other hmem)⟩
    · rintro ⟨⟨v, hmake⟩, hrest⟩
      obtain ⟨hstands, hsame⟩ := hfirst hmake
      obtain ⟨v', h⟩ := (ih hstands).mpr fun other hmem => (hsame other).mpr (hrest other hmem)
      exact ⟨v', by rw [makeAll_cons, bind_of_ok hmake, h]⟩

theorem makeAll_stands (hs : w.Stands base) {ways : List Location} {u : Unit}
    (h : makeAll base ways w = .ok u v) : ∀ way ∈ ways, v.Stands (along base way) := by
  induction ways generalizing w with
  | nil => simp
  | cons way ways ih =>
    rw [makeAll_cons] at h
    obtain ⟨_, v₁, hmake, h⟩ := bind_eq_ok.mp h
    have hfirst := makeDirectories_leads hs way
    rw [final_of_ok hmake] at hfirst
    have hrest := makeAll_leads (hs.leads hfirst) ways
    rw [final_of_ok h] at hrest
    exact List.forall_mem_cons.mpr
      ⟨(makeDirectories_stands hmake).leads hrest, ih (hs.leads hfirst) h⟩

theorem makeAll_standing {ways : List Location} (h : ∀ way ∈ ways, w.Stands (along base way)) :
    makeAll base ways w = .ok () w := by
  induction ways with
  | nil => rfl
  | cons way ways ih =>
    obtain ⟨hway, hrest⟩ := List.forall_mem_cons.mp h
    rw [makeAll_cons, bind_of_ok (makeDirectories_standing hway), ih hrest]

theorem makeAll_onlyTree (base : Path) (ways : List Location) : OnlyTree (makeAll base ways) :=
  onlyTree_forM fun _ _ => makeDirectories_onlyTree _

end Action

namespace Layout

variable {layout : Layout} {w v : Workspace}

/-- The ways from the root to the directories that a build writes to. -/
def outputWays : List Location :=
  Scope.directories.map (fun s => [mediaName, luaName, s.name]) ++ [[distName]]

theorem prepare_eq (layout : Layout) : layout.prepare = Action.makeAll layout.root outputWays := by
  have hdirectory (s : Scope) : layout.outputDirectory s =
      along layout.root [mediaName, luaName, s.name] := by
    rw [outputDirectory_eq, output_along]
  rw [prepare, dist_eq]
  simp only [hdirectory]
  rw [Action.makeAll, outputWays]
  simp [Scope.directories]

end Layout

end ModBuild
