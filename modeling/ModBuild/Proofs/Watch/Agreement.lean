import ModBuild.Proofs.Build.Copying
import ModBuild.Proofs.Watch.Convergence

/-!
# Events and builds give a Lua module the same

A written Lua module is copied by its event wherever it lies in the sources, and by
a build if it lies in a scope. The copy is the same action on the same paths, so
where both copy they give the same bytes, and a build that gets through could not
have done so where the event fails.
-/

set_option autoImplicit false

namespace ModBuild

def Text.luaNamed (name : Text) : Bool := endsWith ".lua".toList (lower name)

theorem Path.suffix_of_lua {p : Path} (h : Text.luaNamed p.name = true)
    (hstem : ".lua".toList.length < p.name.length) : Text.lower p.suffix = ".lua".toList := by
  obtain ⟨stem, hname⟩ := (Text.endsWith_iff _ _).mp h
  rw [Text.lower, eq_comm, List.map_eq_append_iff] at hname
  obtain ⟨front, last, hsplit, -, hlast⟩ := hname
  have hfront : front ≠ [] := by
    rintro rfl
    have hlength := congrArg List.length hlast
    rw [List.length_map] at hlength
    rw [hsplit, List.nil_append, hlength] at hstem
    exact absurd hstem (Nat.lt_irrefl _)
  obtain ⟨dot, ext, rfl, hdot, hext⟩ := List.map_eq_cons_iff.mp hlast
  obtain rfl : dot = '.' := Text.eq_of_toLower (by decide) hdot
  have hplain : '.' ∉ ext.reverse := by
    intro hmem
    have hlower := List.mem_map_of_mem (f := Char.toLower) (List.mem_reverse.mp hmem)
    rw [hext] at hlower
    exact absurd hlower (by decide)
  have hcut : Text.cutAt? '.' p.name.reverse = some (ext.reverse, front.reverse) := by
    rw [Text.cutAt?_eq_some_iff, hsplit]
    exact ⟨by simp, hplain⟩
  cases hr : ext.reverse with
  | nil =>
    rw [List.reverse_eq_nil_iff.mp hr] at hext
    cases hext
  | cons c more =>
    cases hf : front.reverse with
    | nil => exact absurd (List.reverse_eq_nil_iff.mp hf) hfront
    | cons d rest =>
      rw [suffix, hcut, hr, hf]
      dsimp only
      rw [← hr, List.reverse_reverse, Text.lower, List.map_cons, hext]
      rfl

namespace Watch

open Asset (along along_eq location_along)

variable {steps : Steps} {layout : Layout} {r : Responder} {e : Event} {w v : Workspace}
  {way : Location} {source target : Path}

theorem react_lua (hk : e.kind = .add ∨ e.kind = .change)
    (hway : wayOf? layout w.current e.path = some way)
    (hplain : reserved.contains (Text.lower (written way)) = false)
    (hfile : w.isFile (along layout.source way) = .ok true)
    (hlua : Text.lower (along layout.source way).suffix = ".lua".toList) :
    react layout e w = .ok (.copy (along layout.source way) (along layout.output way)) := by
  have hread : reactToFile (along layout.source way) (along layout.output way) w =
      .ok (.copy (along layout.source way) (along layout.output way)) := by
    unfold reactToFile
    rw [hfile]
    simp only [bind, Except.bind, hlua]
    rfl
  unfold react
  rw [hway]
  dsimp only
  rw [hplain]
  rcases hk with hk | hk
  · rw [hk]
    exact hread
  · rw [hk]
    exact hread

def answered (r : Responder) :
    EStateM.Result Failure Workspace Unit →
      EStateM.Result Failure Workspace (Responder × Except Failure (Option Run))
  | .ok _ w => .ok (r, .ok none) w
  | .error f w => .ok (r, .error f) w

theorem respond_copy (h : react r.layout e w = .ok (.copy source target)) :
    r.respond steps e w = answered r (Asset.copy source target r.config steps.year w) := by
  have hask : Action.attempt (Action.ask (react r.layout e)) w =
      .ok (.ok (.copy source target)) w := Action.attempt_of_ok (Action.ask_eq_ok.mpr ⟨h, rfl⟩)
  unfold Responder.respond
  rw [Action.bind_of_ok hask]
  cases hcopy : Asset.copy source target r.config steps.year w with
  | ok u w' =>
    have hattempt : Action.attempt (r.perform steps (.copy source target)) w = .ok (.ok u) w' :=
      Action.attempt_of_ok hcopy
    exact Action.bind_eq_ok.mpr ⟨_, w', hattempt, rfl⟩
  | error f w' =>
    have hattempt : Action.attempt (r.perform steps (.copy source target)) w = .ok (.error f) w' :=
      Action.attempt_of_error hcopy
    exact Action.bind_eq_ok.mpr ⟨_, w', hattempt, rfl⟩

theorem location_absolute (current : Location) (p : Path) :
    (p.absolute current).location current = p.location current := by
  rw [Path.absolute]
  split
  · rfl
  · next hrel =>
    rw [Path.append, if_neg hrel, Path.location, Path.location, if_neg hrel]
    change Path.settle [] (current.map .name ++ p.segments) = _
    rw [Path.settle_append, Path.settle_names]
    rfl

/-- The absolute path of a file of the sources is read as the way to it, if there is
no backslash in it. -/
theorem wayOf_absolute {current : Location} (hway : way ≠ [])
    (hnull : '\x00' ∉ ((along layout.source way).absolute current).print)
    (hslash : '\\' ∉ ((along layout.source way).absolute current).print) :
    wayOf? layout current ((along layout.source way).absolute current).print = some way := by
  have hpath := eventPath_plain layout (Path.absolute_isAbsolute current _) hslash
  have hsource : '\x00' ∉ layout.source.print := by
    intro h
    obtain ⟨s, hs, hc⟩ := Path.null_of_print h
    apply hnull
    apply Path.null_print _ hc
    rw [Path.absolute]
    split
    · rw [along_eq]
      exact List.mem_append_left _ hs
    · next hrel =>
      rw [Path.append, if_neg hrel, along_eq]
      exact List.mem_append_right _ (List.mem_append_left _ hs)
  have hrelative : Tree.relative? (layout.source.location current)
      ((eventPath layout ((along layout.source way).absolute current).print).location current) =
        some way := by
    rw [hpath, location_absolute, location_along, Tree.relative?,
      if_pos (List.isPrefixOf_iff_prefix.mpr (List.prefix_append _ _)), List.drop_left]
  unfold wayOf?
  change (if '\x00' ∈ (eventPath layout _).print ++ layout.source.print then none
    else _) = some way
  rw [hpath, if_neg (by simp [hnull, hsource])]
  split
  · next n rest hrel => exact hrel.symm.trans hrelative
  · next hno =>
    cases way with
    | nil => exact absurd rfl hway
    | cons n rest => exact absurd hrelative (hno n rest)

theorem assets_at {config : Config} {year : Nat} {x : Location × Option ByteArray}
    (hx : x ∈ Build.assets layout config year w)
    (hl : x.1 = (along layout.output way).location w.current) :
    Build.InScope way ∧
      x = Asset.copied config year w (along layout.source way) (along layout.output way) := by
  obtain ⟨way', hscope, -, -, rfl⟩ := (Build.mem_assets x).mp hx
  obtain rfl : way' = way := Asset.way_of_location hl
  exact ⟨hscope, rfl⟩

/-- Where the stage that mirrors the assets ends well, an asset of a scope could have
been copied before it. -/
theorem copy_of_mirror {config : Config} {year : Nat} {u : Unit} (hroot : w.Stands layout.root)
    (hmirror : Build.mirror layout config year w = .ok u v) (hscope : Build.InScope way)
    (hplain : way.any Asset.transpiled = false)
    (hfile : w.isFile (along layout.source way) = .ok true) :
    ∃ w', Asset.copy (along layout.source way) (along layout.output way) config year w =
      .ok () w' := by
  have hne : way ≠ [] := by
    obtain ⟨s, -, rest, -, rfl⟩ := hscope
    simp
  obtain ⟨before, v₁, u₁, v₂, hlaid, hcopy⟩ :=
    Build.mirror_reaches hroot hmirror hscope hplain (Workspace.bytes_of_isFile hfile)
  have hs₁ := hlaid.stands hroot
  have hfile₁ := (hlaid.spares.isFile_source hroot hs₁ way).mpr hfile
  have hcopyable := (Build.copyable_of_copy hs₁ hfile₁ hcopy).earlier hlaid hfile
    (Layout.source_not_inside layout w.current way)
  exact Build.copy_ok hroot hne hcopyable

/-- What a write of a Lua module and the stage of a build that mirrors the assets do
with it. The module's own path tells of it, unless there is a backslash in it. The event
is answered by the copy to its mirror, wherever in the sources the module lies. A stage
that ends well lays the assets and nothing else, and the mirror is among them if and only
if the module lies in a scope. If it does, the event is answered well, and both leave the
same bytes; if not, the stage leaves the mirror as it was. -/
theorem modules_agree (steps : Steps) (r : Responder) (e : Event) (w : Workspace)
    (way : Location) (hroot : w.Stands r.layout.root) (hk : e.kind = .add ∨ e.kind = .change)
    (hway : wayOf? r.layout w.current e.path = some way)
    (hreserved : reserved.contains (Text.lower (written way)) = false)
    (hfile : w.isFile (along r.layout.source way) = .ok true)
    (hlua : Text.luaNamed (along r.layout.source way).name = true)
    (hstem : ".lua".toList.length < (along r.layout.source way).name.length)
    (hplain : way.any Asset.transpiled = false) :
    (∀ path, path = ((along r.layout.source way).absolute w.current).print →
        '\x00' ∉ path → '\\' ∉ path → wayOf? r.layout w.current path = some way) ∧
      r.respond steps e w = answered r
        (Asset.copy (along r.layout.source way) (along r.layout.output way) r.config steps.year w) ∧
      (∀ w', r.respond steps e w = .ok (r, .ok none) w' →
        Build.Laid r.layout w [Asset.copied r.config steps.year w (along r.layout.source way)
          (along r.layout.output way)] w') ∧
      ∀ v, Build.mirror r.layout r.config steps.year w = .ok () v →
        Build.Laid r.layout w (Build.assets r.layout r.config steps.year w) v ∧
          ((∃ x ∈ Build.assets r.layout r.config steps.year w,
              x.1 = (along r.layout.output way).location w.current) ↔ Build.InScope way) ∧
          (Build.InScope way → ∃ w' b, r.respond steps e w = .ok (r, .ok none) w' ∧
            w'.tree.file? ((along r.layout.output way).location w.current) = some b ∧
            v.tree.file? ((along r.layout.output way).location w.current) = some b) ∧
          (¬ Build.InScope way →
            v.tree.file? ((along r.layout.output way).location w.current) =
              w.tree.file? ((along r.layout.output way).location w.current)) := by
  have hrespond : r.respond steps e w = answered r (Asset.copy (along r.layout.source way)
      (along r.layout.output way) r.config steps.year w) :=
    respond_copy (react_lua hk hway hreserved hfile (Path.suffix_of_lua hlua hstem))
  have hthere := Workspace.bytes_of_isFile hfile
  have hgiven : (∃ x ∈ Build.assets r.layout r.config steps.year w,
      x.1 = (along r.layout.output way).location w.current) ↔ Build.InScope way := by
    constructor
    · rintro ⟨x, hx, hl⟩
      exact (assets_at hx hl).1
    · exact fun hscope => ⟨_, (Build.mem_assets _).mpr ⟨way, hscope, hplain, hthere, rfl⟩, rfl⟩
  refine ⟨?_, hrespond, fun w' h => ?_, fun v hmirror => ?_⟩
  · rintro path rfl hnull hslash
    exact wayOf_absolute (wayOf_ok hway).1 hnull hslash
  · rw [hrespond] at h
    cases hcopy : Asset.copy (along r.layout.source way) (along r.layout.output way) r.config
        steps.year w with
    | error f v => rw [hcopy] at h; cases h
    | ok u v =>
      rw [hcopy] at h
      cases h
      exact Build.copy_laid hroot hcopy
  have hlaid := Build.mirror_laid hroot hmirror
  refine ⟨hlaid, hgiven, fun hscope => ?_, fun hno => ?_⟩
  · obtain ⟨w', hcopy⟩ := copy_of_mirror hroot hmirror hscope hplain hfile
    have hone := Build.copy_laid hroot hcopy
    obtain ⟨b, hb⟩ := Option.isSome_iff_exists.mp (hone.filled _ (List.mem_singleton_self _))
    obtain ⟨x, hx, hl, hvalue⟩ := overlay_at _ w.tree.file? _ (hgiven.mpr hscope)
    refine ⟨w', b, by rw [hrespond, hcopy]; rfl, ?_, ?_⟩
    · rw [hone.leads.files, ← hb]
      exact if_pos rfl
    · rw [hlaid.leads.files, hvalue, (assets_at hx hl).2, hb]
  · exact hlaid.leads.file_untouched fun x hx hl => hno (hgiven.mp ⟨x, hx, hl⟩)

theorem sample_module_agrees : ∃ w' v,
    sampleResponder.respond sampleSteps ⟨.add, "/src/client/note.lua".toList⟩ sampleProject =
        .ok (sampleResponder, .ok none) w' ∧
      Build.mirror sampleLayout {} sampleSteps.year sampleProject = .ok () v ∧
      w'.tree.file? (Layout.mediaName :: Layout.luaName :: sampleModule) =
        some (Text.encode "return 1".toList) ∧
      v.tree.file? (Layout.mediaName :: Layout.luaName :: sampleModule) =
        some (Text.encode "return 1".toList) := by
  have hscope : Build.InScope sampleModule := ⟨.client, by decide, _, by decide, rfl⟩
  have hsuccess : ((Build.mirror sampleLayout {} sampleSteps.year).result?
      sampleProject).any (fun x => decide (x.2.tree.file? (Layout.mediaName :: Layout.luaName ::
        sampleModule) = some (Text.encode "return 1".toList))) = true := by
    decide +kernel
  obtain ⟨⟨_, v⟩, hresult, hbytes⟩ := (Option.any_eq_true _ _).mp hsuccess
  have hmirror := Action.result_eq_some.mp hresult
  have hv := of_decide_eq_true hbytes
  obtain ⟨-, -, -, hstage⟩ := modules_agree sampleSteps sampleResponder
    ⟨.add, "/src/client/note.lua".toList⟩ sampleProject sampleModule (by decide +kernel) (.inl rfl)
    (by decide +kernel) (by decide +kernel) (by decide +kernel) (by decide +kernel)
    (by decide +kernel) (by decide +kernel)
  obtain ⟨-, -, hboth, -⟩ := hstage v hmirror
  obtain ⟨w', b, hrespond, hw', hv'⟩ := hboth hscope
  have hlocation : (along sampleResponder.layout.output sampleModule).location
      sampleProject.current = Layout.mediaName :: Layout.luaName :: sampleModule := by
    decide +kernel
  rw [hlocation] at hw' hv'
  exact ⟨w', v, hrespond, hmirror, by rw [hw', ← hv', hv], hv⟩

def sampleTool : Workspace where
  tree := (Except.toOption do
    let t ← Tree.empty.makeDirectory [Layout.sourceName]
    t.writeFile [Layout.sourceName, ⟨"tool.lua".toList, by decide⟩]
      (Text.encode "return 1".toList)).getD .empty

theorem sample_tool_copied : ∃ w' v,
    sampleTool.isFile (Path.parse "src/tool.lua".toList) = .ok true ∧
      sampleResponder.respond sampleSteps ⟨.add, "/src/tool.lua".toList⟩ sampleTool =
        .ok (sampleResponder, .ok none) w' ∧
      Build.mirror sampleLayout {} sampleSteps.year sampleTool = .ok () v ∧
      w'.isFile (Path.parse "media/lua/tool.lua".toList) = .ok true ∧
      v.isFile (Path.parse "media/lua/tool.lua".toList) = .ok false := by
  have hevent : ((sampleResponder.respond sampleSteps
      ⟨.add, "/src/tool.lua".toList⟩).result? sampleTool).any (fun x =>
        decide (x.1 = (sampleResponder, .ok none)) &&
          decide (x.2.isFile (Path.parse "media/lua/tool.lua".toList) = .ok true)) = true := by
    decide +kernel
  have hstage : ((Build.mirror sampleLayout {} sampleSteps.year).result? sampleTool).any (fun x =>
        decide (x.2.isFile (Path.parse "media/lua/tool.lua".toList) = .ok false)) = true := by
    decide +kernel
  obtain ⟨⟨x, w'⟩, hresult, hw'⟩ := (Option.any_eq_true _ _).mp hevent
  obtain ⟨⟨_, v⟩, hresult', hv⟩ := (Option.any_eq_true _ _).mp hstage
  simp only [Bool.and_eq_true, decide_eq_true_eq] at hw' hv
  obtain ⟨rfl, hw'⟩ := hw'
  exact ⟨w', v, by decide +kernel, Action.result_eq_some.mp hresult,
    Action.result_eq_some.mp hresult', hw', hv⟩

end Watch

end ModBuild
