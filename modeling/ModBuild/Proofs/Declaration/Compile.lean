import ModBuild.Declaration.Compile
import ModBuild.Proofs.Declaration.Merged
import ModBuild.Proofs.Layout
import ModBuild.Proofs.Workspace.Directories
import ModBuild.Proofs.Workspace.Within

/-!
# What a compilation of declarations leaves

The merged file is where the compiler writes, what is read back and what is
written over. A compilation that succeeds leaves there a merge of what it read,
or nothing; so where the compiler writes nothing, what an earlier compilation
left is merged once more.
-/

set_option autoImplicit false

namespace ModBuild

namespace Action

variable {w w' : Workspace}

theorem mapM_reads {α β : Type} {f : α → Action β} {g : α → β} {ys : List β} (xs : List α)
    (hf : ∀ x ∈ xs, ∀ y v, f x w = .ok y v → y = g x ∧ v = w)
    (h : xs.mapM f w = .ok ys w') : ys = xs.map g ∧ w' = w := by
  induction xs generalizing ys with
  | nil =>
    obtain ⟨rfl, rfl⟩ := pure_eq_ok.mp h
    exact ⟨rfl, rfl⟩
  | cons x xs ih =>
    rw [List.mapM_cons] at h
    obtain ⟨y, v, hx, hrest⟩ := bind_eq_ok.mp h
    obtain ⟨hy, rfl⟩ := hf x (by simp) y v hx
    obtain ⟨rest, v', hs, hpure⟩ := bind_eq_ok.mp hrest
    obtain ⟨rfl, rfl⟩ := pure_eq_ok.mp hpure
    obtain ⟨rfl, rfl⟩ := ih (fun z hz => hf z (by simp [hz])) hs
    exact ⟨by rw [hy]; rfl, rfl⟩

end Action

/-- A compiler that writes its output where it is told to, or nothing, and may
make directories. -/
def Toolchain.Declares (toolchain : Toolchain) (tsconfig out : Path)
    (output : Option ByteArray) : Prop :=
  ∀ v u v', toolchain.declare tsconfig out v = .ok u v' →
    v.Leads (fun _ => True) (output.toList.map fun b => (out.location v.current, some b)) v'

namespace Declaration

open Asset (along location_along)

def textAt (w : Workspace) (l : Location) : Text :=
  (((w.tree.file? l).bind Text.decode?).map Text.unifyBreaks).getD []

def linesAt (w : Workspace) (l : Location) : List Text := consolidated (textAt w l)

def isDeclaration (way : Location) : Bool :=
  (way.getLast?.map fun n => Text.endsWith Emission.declarationExtension n.text).getD false

def sourceFile (layout : Layout) (w : Workspace) (s : Scope) (way : Location) : SourceFile where
  path := ((Path.parse "src".toList / s.text).append ⟨.relative, way.map .name⟩).print
  content := textAt w ((along (layout.sourceDirectory s) way).location w.current)

def scopeFiles (layout : Layout) (w : Workspace) (s : Scope) : List SourceFile :=
  ((w.tree.filesBelow ((layout.sourceDirectory s).location w.current)).filter isDeclaration).map
    (sourceFile layout w s)

def sourceFiles (layout : Layout) (w : Workspace) : List SourceFile :=
  Scope.directories.flatMap (scopeFiles layout w)

/-- What the merged file shows of a project and of the file at a location. -/
def carriedFrom (layout : Layout) (l : Location) (w : Workspace) : List Text × List Text :=
  carried (linesAt w l) (sourceFiles layout w)

inductive Exports (lines : List Text) (files : List SourceFile) (config : Config) (year : Nat) :
    Option Text → Prop
  | nothing (h : nothingToExport lines files = true) : Exports lines files config year none
  | merge {tokens : Banner.Tokens} (h : nothingToExport lines files = false)
      (htokens : Banner.Tokens.ofConfig? config year = some tokens) :
      Exports lines files config year (some (merged lines files config tokens))

variable {layout : Layout} {config : Config} {year : Nat} {w w' v : Workspace} {s : Scope}

theorem readText_at {p : Path} {t : Text} (h : w.readText p = .ok t) :
    t = textAt w (p.location w.current) := by
  obtain ⟨b, t', hb, ht, rfl⟩ := Workspace.readText_ok h
  rw [textAt, (Workspace.readBytes_ok hb).2, Option.bind_some, ht]
  rfl

theorem collectIn_ok (hs : w.Stands layout.root) {files : List SourceFile}
    (h : collectIn layout s w = .ok files v) : files = scopeFiles layout w s ∧ v = w := by
  unfold collectIn at h
  obtain ⟨ways, w₁, hask, h⟩ := Action.bind_eq_ok.mp h
  obtain ⟨hways, rfl⟩ := Action.ask_eq_ok.mp hask
  have hdir : layout.sourceDirectory s = along layout.root [Layout.sourceName, s.name] := by
    rw [Layout.sourceDirectory_eq, Layout.source_along]
  have hnull : '\x00' ∉ (along layout.root [Layout.sourceName, s.name]).print :=
    Asset.null_along (Workspace.resolve_ok hs.resolve).1 (by cases s <;> decide)
  rw [hdir] at hways
  have hbelow := Workspace.filesBelow_along hs _ hnull hways
  rw [← location_along, ← hdir] at hbelow
  rw [scopeFiles, ← hbelow]
  apply Action.mapM_reads _ _ h
  intro way _ file w₂ hread
  obtain ⟨t, w₃, hask, hread⟩ := Action.bind_eq_ok.mp hread
  obtain ⟨ht, rfl⟩ := Action.ask_eq_ok.mp hask
  obtain ⟨rfl, rfl⟩ := Action.pure_eq_ok.mp hread
  rw [readText_at ht]
  exact ⟨rfl, rfl⟩

theorem collect_ok (hs : w.Stands layout.root) {files : List SourceFile}
    (h : collect layout w = .ok files v) : files = sourceFiles layout w ∧ v = w := by
  unfold collect at h
  obtain ⟨collected, w₁, hcollect, h⟩ := Action.bind_eq_ok.mp h
  obtain ⟨rfl, rfl⟩ := Action.pure_eq_ok.mp h
  obtain ⟨rfl, rfl⟩ := Action.mapM_reads _ (fun s _ _ _ hs' => collectIn_ok hs hs') hcollect
  exact ⟨rfl, rfl⟩

theorem parse_declarations (id : Text) : ∃ ss n,
    (Path.parse (id ++ Emission.declarationExtension)).segments = ss ++ [.name n] := by
  obtain ⟨ps, p, hps⟩ := Text.splitOn_append_last '/' id
    (b := Emission.declarationExtension) (by decide)
  have hlong (t : Text) (ht : t.length < 5) : p ++ Emission.declarationExtension ≠ t := by
    intro h
    have hlength := congrArg List.length h
    have hextension : Emission.declarationExtension.length = 5 := rfl
    rw [List.length_append] at hlength
    omega
  have hvalid : Name.Valid (p ++ Emission.declarationExtension) := by
    refine ⟨hlong _ (by decide), hlong _ (by decide), hlong _ (by decide), ?_⟩
    exact Text.not_mem_of_mem_splitOn (s := id ++ Emission.declarationExtension)
      (by rw [hps]; simp)
  have hlast : Segment.ofText? (p ++ Emission.declarationExtension) =
      some (.name ⟨_, hvalid⟩) := Segment.ofText?_text (.name ⟨_, hvalid⟩)
  refine ⟨ps.filterMap Segment.ofText?, ⟨_, hvalid⟩, ?_⟩
  rw [Path.parse, hps, List.filterMap_append, List.filterMap_cons_some hlast]
  rfl

theorem out_along (layout : Layout) (id : Text) :
    ∃ n, layout.mergedDeclarations id = along (layout.mergedDeclarations id).parent [n] := by
  obtain ⟨ss, n, hss⟩ := parse_declarations id
  have hout : ∃ before, (layout.mergedDeclarations id).segments = before ++ [.name n] := by
    change ∃ before, (layout.dist.append
      (Path.parse (id ++ Emission.declarationExtension))).segments = _
    rw [Path.append]
    split
    · exact ⟨ss, hss⟩
    · exact ⟨layout.dist.segments ++ ss, by rw [hss, List.append_assoc]⟩
  obtain ⟨before, hbefore⟩ := hout
  refine ⟨n, ?_⟩
  rw [Asset.along_eq, Path.parent, hbefore, List.dropLast_concat]
  generalize layout.mergedDeclarations id = out at hbefore ⊢
  cases out
  simpa using hbefore

section

variable {base out : Path} {n : Name}

theorem readConsolidated_ok (hs : w.Stands base) (hout : out = along base [n])
    {lines : List Text} (h : readConsolidated out w = .ok lines v) :
    v = w ∧ ('\x00' ∉ out.print → lines = linesAt w (out.location w.current)) := by
  unfold readConsolidated at h
  obtain ⟨there, w₁, hask, h⟩ := Action.bind_eq_ok.mp h
  obtain ⟨hthere, rfl⟩ := Action.ask_eq_ok.mp hask
  rw [Workspace.readText?] at hthere
  cases hf : w.isFile out with
  | error e => rw [hf] at hthere; cases hthere
  | ok b =>
    rw [hf] at hthere
    cases b with
    | false =>
      cases hthere
      obtain ⟨rfl, rfl⟩ := Action.pure_eq_ok.mp h
      refine ⟨rfl, fun hnull => ?_⟩
      rw [hout] at hf hnull
      have hfile := Workspace.isFile_along hs _ hnull hf
      rw [← location_along, ← hout] at hfile
      have hnone : w.tree.file? (out.location w.current) = none := by simpa using hfile.symm
      rw [linesAt, textAt, hnone]
      rfl
    | true =>
      simp only [bind, Except.bind, if_true] at hthere
      cases hread : w.readText out with
      | error e => rw [hread] at hthere; cases hthere
      | ok t =>
        rw [hread] at hthere
        cases hthere
        obtain ⟨rfl, rfl⟩ := Action.pure_eq_ok.mp h
        exact ⟨rfl, fun _ => by rw [linesAt, readText_at hread]⟩

theorem missing_file (hs : w.Stands base) (hout : out = along base [n])
    (h : w.removeFile out = .error (.fault .notFound)) :
    '\x00' ∉ out.print ∧ w.tree.file? (out.location w.current) = none := by
  have hnull : '\x00' ∉ out.print := by
    intro hnull
    rw [Workspace.removeFile, Workspace.onTree, Workspace.resolve, if_pos hnull] at h
    cases h
  refine ⟨hnull, ?_⟩
  rw [Workspace.removeFile, Workspace.onTree] at h
  have hresolve := Workspace.resolve_along hs [n]
  rw [← location_along, ← hout] at hresolve
  rcases hresolve with hr | hr | hr | ⟨-, hnone⟩
  · rw [hr] at h
    simp only [bind, Except.bind, Tree.removeFile] at h
    rw [Tree.file?]
    cases hget : w.tree.get? (out.location w.current) with
    | none => rfl
    | some e =>
      rw [hget] at h
      cases e <;> simp [throw, throwThe, MonadExceptOf.throw, pure, Except.pure] at h
  · rw [hr] at h
    cases h
  · rw [hr] at h
    cases h
  · rw [Tree.file?, hnone]
    rfl

theorem removeIfAny_leads (hs : w.Stands base) (hout : out = along base [n]) {u : Unit}
    (h : Action.removeFileIfAny out w = .ok u w') :
    '\x00' ∉ out.print ∧ w.Leads (fun _ => True) [(out.location w.current, none)] w' := by
  rw [Action.removeFileIfAny, Action.change_eq_ok, Workspace.removeFileIfAny] at h
  split at h
  · next hmissing =>
    cases h
    obtain ⟨hnull, hnone⟩ := missing_file hs hout hmissing
    refine ⟨hnull, rfl, fun l => ?_, fun _ hl => hl, fun _ hl => .inl hl⟩
    rw [overlay, overlay]
    split
    · next hl => rw [← hl, hnone]
    · rfl
  · have hremove : Action.removeFile out w = .ok () w' := Action.change_eq_ok.mpr h
    obtain ⟨l, t, hr, -, -, -⟩ := Workspace.onTree_ok h
    exact ⟨(Workspace.resolve_ok hr).1, Action.removeFile_ok hremove⟩

end

theorem log_leads {level : Level} {m : Text} {u : Unit} (D : Location → Prop)
    (h : Action.log level m none w = .ok u w') : w.Leads D [] w' := by
  have hw := Action.log_eq_ok.mp h
  exact .of_tree (by rw [hw]) (by rw [hw])

/-- A compilation that succeeds leaves at the merged file what it exports of the
lines and the files that it found after the compiler, and changes no other
file. -/
theorem compile_ok {info : Manifest} {toolchain : Toolchain} {output : Option ByteArray}
    {x : Option Path} (hs : w.Stands layout.root)
    (hdeclares : toolchain.Declares layout.tsconfig (layout.mergedDeclarations info.id) output)
    (h : compile layout config info year toolchain w = .ok x w') :
    ∃ v t?, w.Leads (fun _ => True) (output.toList.map fun b =>
        ((layout.mergedDeclarations info.id).location w.current, some b)) v ∧
      Exports (linesAt v ((layout.mergedDeclarations info.id).location w.current))
        (sourceFiles layout v) config year t? ∧
      x = t?.map (fun _ => layout.mergedDeclarations info.id) ∧
      v.Leads (fun _ => True)
        [((layout.mergedDeclarations info.id).location w.current, t?.map Text.encode)] w' := by
  obtain ⟨n, hout⟩ := out_along layout info.id
  unfold compile at h
  generalize layout.mergedDeclarations info.id = out at hdeclares hout h ⊢
  obtain ⟨_, w₀, hlog, h⟩ := Action.bind_eq_ok.mp h
  obtain ⟨_, w₁, hmake, h⟩ := Action.bind_eq_ok.mp h
  obtain ⟨_, v, hdeclare, h⟩ := Action.bind_eq_ok.mp h
  obtain ⟨lines, v₁, hlines, h⟩ := Action.bind_eq_ok.mp h
  obtain ⟨files, v₂, hfiles, h⟩ := Action.bind_eq_ok.mp h
  have h₀ := log_leads (fun _ => True) hlog
  have h₁ := (Action.makeDirectories_outer out.parent w₀).mono (E := fun _ => True) (by simp)
  rw [Action.final_of_ok hmake] at h₁
  have h₂ := hdeclares _ _ _ hdeclare
  have h₀₁ := h₀.trans h₁
  have hv := h₀₁.trans h₂
  rw [h₀₁.current] at hv
  have hparent : v.Stands out.parent := (Action.makeDirectories_stands hmake).leads h₂
  obtain ⟨rfl, hread⟩ := readConsolidated_ok hparent hout hlines
  obtain ⟨rfl, rfl⟩ := collect_ok (hs.leads hv) hfiles
  rw [hv.current] at hread
  split at h
  · next hnothing =>
    obtain ⟨_, v₃, hlog', h⟩ := Action.bind_eq_ok.mp h
    obtain ⟨_, v₄, hremove, h⟩ := Action.bind_eq_ok.mp h
    obtain ⟨rfl, rfl⟩ := Action.pure_eq_ok.mp h
    have h₃ := log_leads (fun _ => True) hlog'
    obtain ⟨hnull, h₄⟩ := removeIfAny_leads (hparent.leads h₃) hout hremove
    rw [h₃.current, hv.current] at h₄
    rw [hread hnull] at hnothing
    exact ⟨v₂, none, hv, .nothing hnothing, rfl, h₃.trans h₄⟩
  · next hsome =>
    obtain ⟨_, v₃, hlog', h⟩ := Action.bind_eq_ok.mp h
    obtain ⟨_, v₄, hwrite, h⟩ := Action.bind_eq_ok.mp h
    obtain ⟨rfl, rfl⟩ := Action.pure_eq_ok.mp h
    have h₃ := log_leads (fun _ => True) hlog'
    cases htokens : Banner.Tokens.ofConfig? config year with
    | none =>
      rw [htokens] at hwrite
      obtain ⟨_, v₅, -, hthrow⟩ := Action.bind_eq_ok.mp hwrite
      exact absurd hthrow Action.throw_ne_ok
    | some tokens =>
      rw [htokens] at hwrite
      obtain ⟨hresolve, h₄⟩ := Action.writeBytes_ok (D := fun _ => True) hwrite
      rw [h₃.current, hv.current] at h₄
      have hlines' := hread (Workspace.resolve_ok hresolve).1
      rw [hlines'] at hsome h₄
      exact ⟨v₂, _, hv, .merge (by simpa using hsome) htokens, rfl, h₃.trans h₄⟩

end Declaration

end ModBuild
