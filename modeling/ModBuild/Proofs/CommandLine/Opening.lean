import ModBuild.CommandLine.Commands
import ModBuild.Proofs.Build.Preparing
import ModBuild.Proofs.Project

/-!
# How commands begin

Whatever its mode, a command loads the manifest, makes the directories of the
output, and then goes on. A manifest that is no use ends it; one that cannot be
read, and a directory that cannot be made, are not caught.
-/

set_option autoImplicit false

namespace ModBuild

structure Layout.Prepares (layout : Layout) (w v : Workspace) : Prop where
  leads : w.Leads (Action.OnWays (layout.root.location w.current) outputWays) [] v
  tree : v = { w with tree := v.tree }

theorem Layout.prepare_prepares {layout : Layout} {w : Workspace} (hs : w.Stands layout.root) :
    layout.Prepares w (layout.prepare.final w) := by
  rw [prepare_eq]
  exact ⟨Action.makeAll_leads hs _, Action.makeAll_onlyTree _ _ w⟩

theorem Layout.Prepares.refl (layout : Layout) (w : Workspace) : layout.Prepares w w :=
  ⟨.refl _ _, rfl⟩

theorem Project.stands_root {layout : Layout} {w : Workspace} {s : Text}
    (h : w.readText layout.manifest = .ok s) : w.Stands layout.root := by
  obtain ⟨b, t, hread, -, -⟩ := Workspace.readText_ok h
  obtain ⟨hr, hfile⟩ := Workspace.readBytes_ok hread
  rw [Layout.manifest_eq] at hr hfile
  exact Workspace.stands_of_child (by simp) hr (by rw [(Tree.file_eq_some _ _ _).mp hfile]; simp)

namespace CommandLine

open ModBuild.Action

/-- How a host shows lines: one with legible markup is shown, any other is refused, and
nothing else is touched. -/
structure Host.Prints (host : Host) (Legible : Text → Prop) : Prop where
  shows : ∀ line, Legible line → ∀ w, host.print line w = note line w
  refuses : ∀ line, ¬ Legible line → ∀ w, ∃ complaint,
    host.print line w = .error (.markup complaint) w

variable {host : Host} {layout : Layout} {w v : Workspace} {Legible : Text → Prop}

theorem Host.Prints.refuse (h : host.Prints Legible) {line : Text} (hline : Legible line)
    (w : Workspace) : host.refuse line w = .ok 1 { w with printed := w.printed ++ [line] } := by
  rw [Host.refuse, bind_of_ok (h.shows line hline w)]
  rfl

theorem Host.Prints.refuse_illegible (h : host.Prints Legible) {line : Text}
    (hline : ¬ Legible line) (w : Workspace) :
    ∃ complaint, host.refuse line w = .error (.markup complaint) w := by
  obtain ⟨complaint, hprint⟩ := h.refuses line hline w
  exact ⟨complaint, bind_of_error hprint⟩

/-- A command cannot begin where the manifest is not to be read, though it is not
missing, or where a directory of the output cannot be made. -/
inductive Unready (layout : Layout) (w : Workspace) : Prop
  | unread {e : Failure} (h : w.readText layout.manifest = .error e) (he : e ≠ .fault .notFound)
  | unprepared {info : Manifest} {way : Location}
      (h : Project.loadManifest layout.manifest w = .ok info w) (hway : way ∈ Layout.outputWays)
      (hmake : ¬ w.Makeable layout.root way)

theorem unready_iff {info : Manifest}
    (hload : Project.loadManifest layout.manifest w = .ok info w) :
    Unready layout w ↔ ¬ ∀ way ∈ Layout.outputWays, w.Makeable layout.root way := by
  constructor
  · rintro (⟨hread, -⟩ | ⟨-, hway, hno⟩) hall
    · obtain ⟨s, htext⟩ := Project.text_of_loadManifest hload
      cases hread.symm.trans htext
    · exact hno (hall _ hway)
  · intro hno
    by_contra hready
    exact hno fun way hway => by_contra fun hmake => hready (.unprepared hload hway hmake)

def opened (host : Host) (layout : Layout) (rest : Manifest → Action Nat) : Action Nat := do
  match ← Action.attempt (Project.loadManifest layout.manifest) with
  | .error e => reportManifest host e
  | .ok info =>
    layout.prepare
    rest info

def taskOf (host : Host) (layout : Layout) : Mode → Option Task
  | .build => some (Task.build host layout)
  | .declarations => some (Task.declarations host layout)
  | .watch => none

def remainder (host : Host) (layout : Layout) (mode : Mode) (info : Manifest) : Action Nat :=
  match taskOf host layout mode with
  | some task => task.finish host layout info
  | none => do
    let toolchain ← host.toolchainOf layout
    let steps := stepsOf host layout toolchain
    match ← Action.attempt (Watch.Responder.create steps layout) with
    | .error e => reportManifest host e
    | .ok r =>
      let f ← Following.start host steps r
      (← f.take host.batches).close host
      return 0

theorem remainder_of_task {mode : Mode} {task : Task} (h : taskOf host layout mode = some task)
    (info : Manifest) : remainder host layout mode info = task.finish host layout info := by
  rw [remainder, h]

theorem perform_eq (host : Host) (mode : Mode) (layout : Layout) :
    perform host mode layout = opened host layout (remainder host layout mode) := by
  cases mode with
  | build => rfl
  | declarations => rfl
  | watch =>
    unfold perform watch Following.begin opened remainder
    simp only [taskOf, bind_assoc]
    congr 1
    funext loaded
    cases loaded with
    | error e => simp
    | ok info =>
      simp only [bind_assoc]
      congr 1
      funext _
      congr 1
      funext toolchain
      congr 1
      funext created
      cases created with
      | error e => simp
      | ok r => simp

/-- How a command begins: it ends at once, or it fails, or it goes on from the
directories of the output. -/
theorem opened_cases (host : Host) (layout : Layout) (rest : Manifest → Action Nat)
    (w : Workspace) :
    (∃ defect, Project.loadManifest layout.manifest w = .error (.manifest defect) w ∧
        ¬ Unready layout w ∧
        opened host layout rest w = host.refuse (red defect.message) w) ∨
      (Unready layout w ∧ ∃ e v, layout.Prepares w v ∧ opened host layout rest w = .error e v) ∨
      ∃ info v, Project.loadManifest layout.manifest w = .ok info w ∧ w.Stands layout.root ∧
        ¬ Unready layout w ∧ layout.prepare w = .ok () v ∧ layout.Prepares w v ∧
        opened host layout rest w = rest info v := by
  rcases Project.loadManifest_cases layout.manifest w with
    ⟨s, info, hread, hload⟩ | ⟨defect, hdefect, hload⟩ | ⟨e, hread, he, hload⟩
  · have hs := Project.stands_root hread
    have hopened : opened host layout rest w = (layout.prepare >>= fun _ => rest info) w := by
      rw [opened, bind_of_ok (attempt_of_ok hload)]
    have hmake := makeAll_iff hs Layout.outputWays
    rw [← Layout.prepare_eq] at hmake
    have hprepares := Layout.prepare_prepares hs
    cases h : layout.prepare w with
    | ok u v =>
      rw [final_of_ok h] at hprepares
      exact .inr (.inr ⟨info, v, hload, hs, fun hno => (unready_iff hload).mp hno (hmake.mp ⟨v, h⟩),
        rfl, hprepares, by rw [hopened, bind_of_ok h]⟩)
    | error e v =>
      rw [final_of_error h] at hprepares
      refine .inr (.inl ⟨(unready_iff hload).mpr fun hall => ?_, e, v, hprepares,
        by rw [hopened, bind_of_error h]⟩)
      obtain ⟨v', h'⟩ := hmake.mpr hall
      cases h.symm.trans h'
  · refine .inl ⟨defect, hload, ?_, ?_⟩
    · rintro (⟨h, he⟩ | ⟨h, -, -⟩)
      · exact he (hdefect _ h)
      · cases hload.symm.trans h
    · rw [opened, bind_of_ok (attempt_of_error hload)]
      rfl
  · refine .inr (.inl ⟨.unread hread he, e, w, .refl layout w, ?_⟩)
    rw [opened, bind_of_ok (attempt_of_error hload)]
    show reportManifest host e w = _
    rw [reportManifest, Workspace.readText_ofManifest hread]
    rfl

end CommandLine

end ModBuild
