import ModBuild.CommandLine.Commands
import ModBuild.Proofs.Build.Placeholders
import ModBuild.Proofs.Project

/-!
# What the toolchain is pointed at

A command of the toolchain runs in the root of the project, and its arguments
are the paths that the program itself uses. A relative root is taken twice on
the way to them, so it is pointed right exactly where the root, taken from
itself, leads to itself.
-/

set_option autoImplicit false

namespace ModBuild

def Command.workingDirectory (c : Command) (current : Location) : Location :=
  match c.directory with
  | some d => (Path.parse d).location current
  | none => current

def Command.leadsTo (c : Command) (current : Location) (argument : Text) : Location :=
  (Path.parse argument).location (c.workingDirectory current)

/-- A path means the same from a directory and from where a base leads from
there. -/
def Path.FixedFrom (p base : Path) (current : Location) : Prop :=
  p.location (base.location current) = p.location current

def Layout.RootFixed (layout : Layout) (current : Location) : Prop :=
  layout.root.FixedFrom layout.root current

namespace Layout

variable {layout : Layout} {current : Location}

theorem rootFixed_of_absolute (h : layout.root.isAbsolute = true) (current : Location) :
    layout.RootFixed current := by
  rw [RootFixed, Path.FixedFrom, Path.location, Path.location, if_pos h, if_pos h]

theorem rootFixed_names {way : Location} (h : layout.root = ⟨.relative, way.map .name⟩)
    (current : Location) : layout.RootFixed current ↔ way = [] := by
  have hlocation (c : Location) : layout.root.location c = c ++ way := by
    rw [h, Path.location, Path.settle_names]
    rfl
  rw [RootFixed, Path.FixedFrom, hlocation, hlocation]
  simp

theorem location_append {c c' : Location} {p q : Path} (h : p.location c = p.location c') :
    (p.append q).location c = (p.append q).location c' := by
  rw [Path.append]
  split
  · next hq => rw [Path.location, Path.location, if_pos hq, if_pos hq]
  · rw [Path.location, Path.location, Path.settle_append, Path.settle_append]
    exact congrArg (fun l => Path.settle l q.segments) h

theorem along_fixed (way : Location) :
    (Asset.along layout.root way).FixedFrom layout.root current ↔ layout.RootFixed current := by
  rw [Path.FixedFrom, Asset.location_along, Asset.location_along, List.append_left_inj]
  rfl

def tsconfigName : Name := ⟨"tsconfig.json".toList, by decide⟩

theorem tsconfig_along (layout : Layout) :
    layout.tsconfig = Asset.along layout.root [tsconfigName] :=
  Asset.div_name layout.root tsconfigName

theorem declarations_fixed (h : layout.RootFixed current) (id : Text) :
    (layout.mergedDeclarations id).FixedFrom layout.root current :=
  location_append (location_append h)

theorem declarations_along {id : Text} {way : Location}
    (h : Path.parse (id ++ Emission.declarationExtension) = ⟨.relative, way.map .name⟩) :
    layout.mergedDeclarations id = Asset.along layout.root (distName :: way) := by
  show layout.dist.append (Path.parse (id ++ Emission.declarationExtension)) = _
  rw [h, dist_eq]
  exact Asset.along_along layout.root [distName] way

end Layout

namespace Script

theorem argumentOf_flag (flag value : Text) (rest : List Text) :
    argumentOf flag (flag :: value :: rest) = some value := by
  rw [argumentOf, if_pos rfl]

theorem argumentOf_other {flag a : Text} (h : a ≠ flag) (b : Text) (rest : List Text) :
    argumentOf flag (a :: b :: rest) = argumentOf flag (b :: rest) := by
  rw [argumentOf, if_neg h]

end Script

namespace CommandLine

/-- An action that only runs commands with a property: what the others would do
does not matter to it. -/
def RunsOnly {α : Type} (P : Command → Prop)
    (action : (Command → Action ProcessOutcome) → Action α) (w : Workspace) : Prop :=
  ∀ run run', (∀ c, P c → run c = run' c) → action run w = action run' w

/-- A command of the toolchain, behind the words of its runner, takes its
arguments from the root: the configuration of the project, and where to write if
it is told to. -/
def Points (host : Host) (layout : Layout) (out? : Option Path) (c : Command) : Prop :=
  ∃ words tool arguments, ProcessRunner.words? none host.runnerVariable = .ok words ∧
    c.arguments = words ++ tool :: arguments ∧ ∀ current,
      (Script.argumentOf "-p".toList arguments).map (c.leadsTo current) =
          some (layout.tsconfig.location (layout.root.location current)) ∧
        (Script.argumentOf "--outFile".toList arguments).map (c.leadsTo current) =
          out?.map fun p => p.location (layout.root.location current)

/-- What the commands of a mode are told to write: for declarations the file that
is read back after them, which the manifest names. -/
inductive Written (layout : Layout) (w : Workspace) : Mode → Option Path → Prop
  | build : Written layout w .build none
  | watch : Written layout w .watch none
  | declarations {info : Manifest} {v : Workspace}
      (h : Project.loadManifest layout.manifest w = .ok info v) :
      Written layout w .declarations (some (layout.mergedDeclarations info.id))

variable {host : Host} {layout : Layout} {w : Workspace} {words : List Text}
  {run run' : Command → Action ProcessOutcome}

theorem leadsTo_print {c : Command} (hc : c.directory = some layout.root.print) (p : Path)
    (current : Location) :
    c.leadsTo current p.print = p.location (layout.root.location current) := by
  rw [Command.leadsTo, Command.workingDirectory, hc]
  dsimp only
  rw [Path.parse_print, Path.parse_print]

theorem tsconfig_no_flag (layout : Layout) : layout.tsconfig.print ≠ "--outFile".toList := by
  intro h
  have hread := congrArg Path.parse h
  rw [Path.parse_print, Layout.tsconfig_along, Asset.along_eq] at hread
  have hlast := congrArg (fun p => p.segments.getLast?) hread
  simp only [List.map_cons, List.map_nil, List.getLast?_concat] at hlast
  revert hlast
  decide

theorem points_transpile (hw : ProcessRunner.words? none host.runnerVariable = .ok words) :
    Points host layout none ⟨words ++ "tstl".toList :: ["-p".toList, layout.tsconfig.print,
      "--outDir".toList, host.scratch], some layout.root.print⟩ := by
  refine ⟨words, _, _, hw, rfl, fun current => ⟨?_, ?_⟩⟩
  · rw [Script.argumentOf_flag, Option.map_some, leadsTo_print rfl]
  · rw [Script.argumentOf_other (by decide), Script.argumentOf_other (tsconfig_no_flag layout),
      Script.argumentOf_other (by decide)]
    rfl

theorem points_declare (hw : ProcessRunner.words? none host.runnerVariable = .ok words)
    (p : Path) :
    Points host layout (some p) ⟨words ++ "tsc".toList :: ["-p".toList, layout.tsconfig.print,
      "--declaration".toList, "--emitDeclarationOnly".toList, "--outFile".toList, p.print],
      some layout.root.print⟩ := by
  refine ⟨words, _, _, hw, rfl, fun current => ⟨?_, ?_⟩⟩
  · rw [Script.argumentOf_flag, Option.map_some, leadsTo_print rfl]
  · rw [Script.argumentOf_other (by decide), Script.argumentOf_other (tsconfig_no_flag layout),
      Script.argumentOf_other (by decide), Script.argumentOf_other (by decide),
      Script.argumentOf_flag, Option.map_some, leadsTo_print rfl]
    rfl

def toolchainOf (host : Host) (layout : Layout) (words : List Text)
    (run : Command → Action ProcessOutcome) : Toolchain :=
  ProcessRunner.toolchain ⟨words, some layout.root, host.scratch, run⟩

theorem runTool_congr (scratch : Text) {tool : Text} {arguments : List Text}
    (h : run ⟨words ++ tool :: arguments, some layout.root.print⟩ =
      run' ⟨words ++ tool :: arguments, some layout.root.print⟩) :
    ProcessRunner.runTool ⟨words, some layout.root, scratch, run⟩ tool arguments =
      ProcessRunner.runTool ⟨words, some layout.root, scratch, run'⟩ tool arguments := by
  unfold ProcessRunner.runTool
  dsimp only [Option.map_some]
  rw [h]

theorem transpile_congr (hw : ProcessRunner.words? none host.runnerVariable = .ok words)
    (h : ∀ c, Points host layout none c → run c = run' c) :
    (toolchainOf host layout words run).transpile layout.tsconfig =
      (toolchainOf host layout words run').transpile layout.tsconfig := by
  have htool := runTool_congr host.scratch (h _ (points_transpile hw))
  simp only [toolchainOf, ProcessRunner.toolchain]
  rw [htool]

theorem declare_congr (hw : ProcessRunner.words? none host.runnerVariable = .ok words) {p : Path}
    (h : ∀ c, Points host layout (some p) c → run c = run' c) :
    (toolchainOf host layout words run).declare layout.tsconfig p =
      (toolchainOf host layout words run').declare layout.tsconfig p := by
  have htool := runTool_congr host.scratch (h _ (points_declare hw p))
  simp only [toolchainOf, ProcessRunner.toolchain]
  rw [htool]

theorem run_congr_toolchain (config : Config) (clock : Clock) {t t' : Toolchain}
    (h : t.transpile layout.tsconfig = t'.transpile layout.tsconfig) :
    Build.run layout config clock t = Build.run layout config clock t' := by
  unfold Build.run Build.transpile
  rw [h]

theorem toolchainOf_bind {α : Type} (run : Command → Action ProcessOutcome)
    (f : Toolchain → Action α) :
    (({ host with run } : Host).toolchainOf layout >>= f) =
      match ProcessRunner.words? none host.runnerVariable with
      | .error unfinished => (throw (.command unfinished) : Action α)
      | .ok words => f (toolchainOf host layout words run) := by
  rw [Host.toolchainOf]
  cases ProcessRunner.words? none host.runnerVariable <;> rfl

theorem task_congr {t t' : Task} (hfailed : t.failed = t'.failed)
    (hcarry : ∀ info v, Project.loadManifest layout.manifest w = .ok info v →
      t.carry { host with run } layout info = t'.carry { host with run := run' } layout info) :
    t.run { host with run } layout w = t'.run { host with run := run' } layout w := by
  unfold Task.run Task.finish
  apply Action.bind_congr_right
  intro loaded v hload
  rcases Action.attempt_eq_ok.mp hload with ⟨info, rfl, hinfo⟩ | ⟨e, rfl, -⟩
  · simp only [hcarry info v hinfo, hfailed]
    rfl
  · rfl

theorem build_runsOnly :
    RunsOnly (Points host layout none) (fun run => build { host with run } layout) w := by
  intro run run' h
  refine task_congr rfl fun info v _ => ?_
  unfold Task.carry Task.build
  simp only [toolchainOf_bind]
  cases hw : ProcessRunner.words? none host.runnerVariable with
  | error unfinished => rfl
  | ok words =>
    have hrun (config : Config) :=
      run_congr_toolchain config host.clock (transpile_congr hw h)
    simp only [hrun]

theorem watch_runsOnly :
    RunsOnly (Points host layout none) (fun run => watch { host with run } layout) w := by
  intro run run' h
  have hbegin : Following.begin { host with run } layout =
      Following.begin { host with run := run' } layout := by
    unfold Following.begin stepsOf
    simp only [toolchainOf_bind]
    cases hw : ProcessRunner.words? none host.runnerVariable with
    | error unfinished => rfl
    | ok words =>
      have hrun (config : Config) :=
        run_congr_toolchain config host.clock (transpile_congr hw h)
      simp only [hrun]
      rfl
  unfold watch
  simp only [hbegin]
  rfl

theorem declarations_runsOnly :
    RunsOnly (fun c => ∃ info v, Project.loadManifest layout.manifest w = .ok info v ∧
        Points host layout (some (layout.mergedDeclarations info.id)) c)
      (fun run => declarations { host with run } layout) w := by
  intro run run' h
  refine task_congr rfl fun info v hinfo => ?_
  unfold Task.carry Task.declarations
  simp only [toolchainOf_bind]
  cases hw : ProcessRunner.words? none host.runnerVariable with
  | error unfinished => rfl
  | ok words =>
    have hdeclare := declare_congr hw fun c hc => h c ⟨info, v, hinfo, hc⟩
    unfold Declaration.compile
    simp only [hdeclare]

/-- Every command that a mode runs takes its arguments from the root of the
project. So it is pointed at the configuration exactly where the root, taken
from itself, leads to itself, and then also at the file that is read back. That
is so for absolute roots, and for a relative one without steps up only in the
root itself. -/
theorem perform_points (host : Host) (mode : Mode) (layout : Layout) (w : Workspace) :
    RunsOnly (fun c => ∃ out?, Written layout w mode out? ∧ Points host layout out? c)
        (fun run => perform { host with run } mode layout) w ∧
      (∀ current, layout.tsconfig.FixedFrom layout.root current ↔ layout.RootFixed current) ∧
      (∀ current id, layout.RootFixed current →
        (layout.mergedDeclarations id).FixedFrom layout.root current) ∧
      (∀ (current : Location) (id : Text) (way : Location),
        Path.parse (id ++ Emission.declarationExtension) = ⟨.relative, way.map .name⟩ →
        ((layout.mergedDeclarations id).FixedFrom layout.root current ↔
          layout.RootFixed current)) ∧
      (layout.root.isAbsolute = true → ∀ current, layout.RootFixed current) ∧
      ∀ way : Location, layout.root = ⟨.relative, way.map .name⟩ →
        ∀ current, layout.RootFixed current ↔ way = [] := by
  refine ⟨?_, fun current => ?_, fun _ id h => Layout.declarations_fixed h id,
    fun current id way h => ?_, Layout.rootFixed_of_absolute, fun _ h => Layout.rootFixed_names h⟩
  · intro run run' h
    cases mode with
    | build => exact build_runsOnly run run' fun c hc => h c ⟨none, .build, hc⟩
    | watch => exact watch_runsOnly run run' fun c hc => h c ⟨none, .watch, hc⟩
    | declarations =>
      apply declarations_runsOnly run run'
      rintro c ⟨info, v, hload, hc⟩
      exact h c ⟨_, .declarations hload, hc⟩
  · rw [Layout.tsconfig_along]
    exact Layout.along_fixed _
  · rw [Layout.declarations_along h]
    exact Layout.along_fixed _

/-! A project in a directory of its own, and a host whose processes do nothing. -/

def sampleMod : Workspace where
  tree := (Except.toOption do
    let t ← Tree.empty.makeDirectory [⟨"mod".toList, by decide⟩]
    t.writeFile [⟨"mod".toList, by decide⟩, Layout.manifestName]
      (Text.encode "name=Note\nid=note\nposter=p\ndescription=d\n".toList)).getD .empty

def sampleHost : Host where
  scratch := "/scratch".toList
  run _ := pure {}
  print := Action.note
  clock := Build.sampleClock

theorem sample_mispointed :
    let layout := Layout.choose (some "mod".toList) none
    (∃ c, ((perform sampleHost .build layout).final sampleMod).commands = [c] ∧
      (Script.argumentOf "-p".toList c.arguments).map (c.leadsTo sampleMod.current) ≠
        some (layout.tsconfig.location sampleMod.current)) ∧
    ∃ c, ((perform sampleHost .declarations layout).final sampleMod).commands = [c] ∧
      (Script.argumentOf "--outFile".toList c.arguments).map (c.leadsTo sampleMod.current) ≠
        some ((layout.mergedDeclarations "note".toList).location sampleMod.current) := by
  refine ⟨⟨⟨["npx".toList, "tstl".toList, "-p".toList, "mod/tsconfig.json".toList,
      "--outDir".toList, "/scratch".toList], some "mod".toList⟩, ?_, ?_⟩,
    ⟨["npx".toList, "tsc".toList, "-p".toList, "mod/tsconfig.json".toList,
      "--declaration".toList, "--emitDeclarationOnly".toList, "--outFile".toList,
      "mod/dist/note.d.ts".toList], some "mod".toList⟩, ?_, ?_⟩
  · decide +kernel
  · decide +kernel
  · decide +kernel
  · decide +kernel

end CommandLine

end ModBuild
