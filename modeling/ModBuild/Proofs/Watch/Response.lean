import ModBuild.Proofs.Build.Layers
import ModBuild.Watch.Responder

/-!
# What an answered event does

An event is answered in one of a few ways: what it asks for is read off its
kind, the way it names and what stands there, and then carried out. Events of
new directories and of writes only add to the output; events of removals only
take away from it, and what they can take is known from their paths.
-/

set_option autoImplicit false

namespace ModBuild.Watch

open Asset (along)

/-- The way from the sources that an event is about, if it is about any. -/
def eventWay? (layout : Layout) (current : Location) (e : Event) : Option Location :=
  (wayOf? layout current e.path).filter fun way => !reserved.contains (Text.lower (written way))

def eventPath (layout : Layout) (path : Text) : Path :=
  let written := Path.parse (Emission.slashed path)
  if written.isAbsolute then written else layout.root.append written

theorem wayOf_ok {layout : Layout} {current : Location} {path : Text} {way : Location}
    (h : wayOf? layout current path = some way) :
    way ≠ [] ∧
      (eventPath layout path).location current = layout.source.location current ++ way := by
  unfold wayOf? at h
  change (if '\x00' ∈ (eventPath layout path).print ++ layout.source.print then none
    else _) = some way at h
  split at h
  · cases h
  · split at h
    · next n rest hrel =>
      cases h
      change Tree.relative? _ ((eventPath layout path).location current) = _ at hrel
      rw [Tree.relative?] at hrel
      split at hrel
      · next hp =>
        obtain ⟨tail, htail⟩ := List.isPrefixOf_iff_prefix.mp hp
        rw [← htail, List.drop_left] at hrel
        exact ⟨by simp, by rw [← htail, Option.some.inj hrel]⟩
      · cases hrel
    · cases h

theorem eventWay_eq {layout : Layout} {current : Location} {e : Event} {way : Location}
    (h : eventWay? layout current e = some way) :
    wayOf? layout current e.path = some way ∧
      reserved.contains (Text.lower (written way)) = false := by
  rw [eventWay?, Option.filter_eq_some_iff] at h
  exact ⟨h.1, by simpa using h.2⟩

def writeReaction (source target : Path) : Reaction :=
  if Text.lower source.suffix = ".lua".toList then .copy source target
  else if Text.endsWith Emission.declarationExtension (Text.lower source.name) then .ignore
  else if Text.endsWith Asset.typeScriptExtension (Text.lower source.name) then .rebuild source
  else .ignore

inductive Asks (layout : Layout) (w : Workspace) (way : Location) : EventKind → Reaction → Prop
  | write {k : EventKind} {b : Bool} (hk : k = .add ∨ k = .change)
      (h : w.isFile (along layout.source way) = .ok b) :
      Asks layout w way k
        (if b then writeReaction (along layout.source way) (along layout.output way) else .ignore)
  | kept (h : targetOfRemoved? (along layout.output way) = none) :
      Asks layout w way .unlink .ignore
  | removed {p : Path} {b : Bool} (ht : targetOfRemoved? (along layout.output way) = some p)
      (h : w.isFile p = .ok b) :
      Asks layout w way .unlink (if b then .removeFile p else .ignore)
  | directoryRemoved {b : Bool} (h : w.isDirectory (along layout.output way) = .ok b) :
      Asks layout w way .unlinkDir
        (if b then .removeDirectory (along layout.output way) else .ignore)
  | directoryAdded {b : Bool} (h : w.occupied (along layout.output way) = .ok b) :
      Asks layout w way .addDir
        (if b then .ignore else .createDirectory (along layout.output way))

theorem reactToFile_ok {source target : Path} {w : Workspace} {x : Reaction}
    (h : reactToFile source target w = .ok x) :
    ∃ b, w.isFile source = .ok b ∧ x = if b then writeReaction source target else .ignore := by
  unfold reactToFile at h
  cases hf : w.isFile source with
  | error f => rw [hf] at h; cases h
  | ok b =>
    refine ⟨b, rfl, ?_⟩
    rw [hf] at h
    cases b with
    | false => cases h; rfl
    | true =>
      rw [if_pos rfl, writeReaction]
      simp only [bind, Except.bind, pure, Except.pure] at h
      split at h
      · next hb => simp at hb
      · split at h
        · cases h
          split
          · rfl
          · next hs => exact absurd ‹_› hs
        · next hs =>
          rw [if_neg hs]
          split at h
          · next hd => cases h; rw [if_pos hd]
          · next hd =>
            rw [if_neg hd]
            cases h
            rfl

theorem answer_ok {question : Except Failure Bool} {yes no x : Reaction}
    (h : (do return if ← question then yes else no) = Except.ok x) :
    ∃ b, question = .ok b ∧ x = if b then yes else no := by
  cases question with
  | error f => cases h
  | ok b =>
    cases h
    exact ⟨b, rfl, rfl⟩

theorem react_ok {layout : Layout} {e : Event} {w : Workspace} {x : Reaction}
    (h : react layout e w = .ok x) :
    (eventWay? layout w.current e = none ∧ x = .ignore) ∨
      ∃ way, eventWay? layout w.current e = some way ∧ Asks layout w way e.kind x := by
  unfold react at h
  rw [eventWay?]
  cases hway : wayOf? layout w.current e.path with
  | none =>
    rw [hway] at h
    cases h
    exact .inl ⟨rfl, rfl⟩
  | some way =>
    rw [hway] at h
    by_cases hr : reserved.contains (Text.lower (written way)) = true
    · simp only [hr, if_true] at h
      cases h
      refine .inl ⟨?_, rfl⟩
      rw [Option.filter_some, hr]
      rfl
    · have hown : (some way).filter (fun way => !reserved.contains (Text.lower (written way))) =
          some way := by
        rw [Option.filter_some, Bool.eq_false_of_not_eq_true hr]
        rfl
      refine .inr ⟨way, hown, ?_⟩
      dsimp only at h
      rw [if_neg hr] at h
      cases hk : e.kind with
      | add =>
        rw [hk] at h
        obtain ⟨b, hb, rfl⟩ := reactToFile_ok h
        exact .write (.inl rfl) hb
      | change =>
        rw [hk] at h
        obtain ⟨b, hb, rfl⟩ := reactToFile_ok h
        exact .write (.inr rfl) hb
      | unlink =>
        rw [hk] at h
        dsimp only at h
        cases ht : targetOfRemoved? (along layout.output way) with
        | none => rw [ht] at h; cases h; exact .kept ht
        | some p =>
          rw [ht] at h
          obtain ⟨b, hb, rfl⟩ := answer_ok h
          exact .removed ht hb
      | unlinkDir =>
        rw [hk] at h
        obtain ⟨b, hb, rfl⟩ := answer_ok h
        exact .directoryRemoved hb
      | addDir =>
        rw [hk] at h
        obtain ⟨b, hb, rfl⟩ := answer_ok h
        exact .directoryAdded hb

inductive Carried (steps : Steps) (r : Responder) (w : Workspace) :
    Reaction → Responder → Workspace → Prop
  | built {source : Path} {config : Config} {run : Run} {v v' w' : Workspace}
      (htree : v.tree = w.tree) (hcurrent : v.current = w.current)
      (hload : steps.load v = .ok config v') (hbuild : steps.build config v' = .ok run w') :
      Carried steps r w (.rebuild source) { r with config, runs := r.runs ++ [run] } w'
  | performed {reaction : Reaction} {w' : Workspace} (hno : ∀ source, reaction ≠ .rebuild source)
      (h : r.perform steps reaction w = .ok () w') : Carried steps r w reaction r w'

section

variable {steps : Steps} {layout : Layout} {clock : Clock} {toolchain : Toolchain}
  {r r' : Responder} {e : Event} {w w' : Workspace} {x : Option Run}

theorem respond_ok (h : r.respond steps e w = .ok (r', .ok x) w') :
    ∃ reaction, react r.layout e w = .ok reaction ∧ Carried steps r w reaction r' w' := by
  unfold Responder.respond at h
  obtain ⟨answer, v, hreact, h⟩ := Action.bind_eq_ok.mp h
  rcases Action.attempt_eq_ok.mp hreact with ⟨reaction, rfl, hask⟩ | ⟨f, rfl, -⟩
  swap
  · cases h
  obtain ⟨hreaction, rfl⟩ := Action.ask_eq_ok.mp hask
  refine ⟨reaction, hreaction, ?_⟩
  have hplain (hno : ∀ source, reaction ≠ .rebuild source)
      (h : (do
        let result ← Action.attempt (r.perform steps reaction)
        return (r, result.map fun _ => none) : Action _) w =
          .ok (r', Except.ok x) w') : Carried steps r w reaction r' w' := by
    obtain ⟨result, v, hattempt, h⟩ := Action.bind_eq_ok.mp h
    obtain ⟨heq, rfl⟩ := Action.pure_eq_ok.mp h
    obtain ⟨rfl, hresult⟩ := Prod.mk.inj heq
    rcases Action.attempt_eq_ok.mp hattempt with ⟨u, rfl, hperform⟩ | ⟨f, rfl, -⟩
    · exact .performed hno hperform
    · cases hresult
  cases reaction with
  | rebuild source =>
    obtain ⟨_, v, hlog, h⟩ := Action.bind_eq_ok.mp h
    have hv := Action.log_eq_ok.mp hlog
    obtain ⟨⟨r₁, result⟩, v₁, hrebuild, h⟩ := Action.bind_eq_ok.mp h
    obtain ⟨heq, rfl⟩ := Action.pure_eq_ok.mp h
    obtain ⟨rfl, hresult⟩ := Prod.mk.inj heq
    unfold Responder.rebuild at hrebuild
    obtain ⟨loaded, v₂, htry, hrebuild⟩ := Action.bind_eq_ok.mp hrebuild
    rcases Action.attempt_eq_ok.mp htry with ⟨config, rfl, hload⟩ | ⟨f, rfl, -⟩
    swap
    · cases hrebuild
      cases hresult
    obtain ⟨built, v₃, htry, hrebuild⟩ := Action.bind_eq_ok.mp hrebuild
    rcases Action.attempt_eq_ok.mp htry with ⟨run, rfl, hbuild⟩ | ⟨f, rfl, -⟩
    swap
    · cases hrebuild
      cases hresult
    cases hrebuild
    exact .built (by rw [hv]) (by rw [hv]) hload hbuild
  | _ => exact hplain (by simp) h

theorem carried_ignore (h : Carried steps r w .ignore r' w') : r' = r ∧ w' = w := by
  cases h with
  | performed hno h =>
    obtain ⟨-, rfl⟩ := Action.pure_eq_ok.mp h
    exact ⟨rfl, rfl⟩

/-- How a responder works when it loads its configuration without a change of
the project and builds with a transpiler. -/
structure Steps.Building (steps : Steps) (layout : Layout) (clock : Clock)
    (toolchain : Toolchain) : Prop where
  load : ∀ v config v', steps.load v = .ok config v' → v'.tree = v.tree ∧ v'.current = v.current
  build : steps.build = fun config => Build.run layout config clock toolchain
  year : steps.year = clock.year
  quiet : toolchain.Quiet layout.tsconfig
  level : ∀ v es, toolchain.Emits layout.tsconfig v es → ∀ e ∈ es, ¬ Emission.Upward e.path

/-- An event tells of a file that was written, and the file is there. -/
def Writes (layout : Layout) (w : Workspace) (e : Event) (way : Location) : Prop :=
  (e.kind = .add ∨ e.kind = .change) ∧ eventWay? layout w.current e = some way ∧
    w.isFile (along layout.source way) = .ok true

def Builds (layout : Layout) (w : Workspace) (e : Event) : Prop :=
  ∃ way, Writes layout w e way ∧
    writeReaction (along layout.source way) (along layout.output way) =
      .rebuild (along layout.source way)

/-- What an event gives to the output, and the responder after it: the copy of a
written Lua module, the plan of a build, and nothing in all other cases. -/
inductive Growth (layout : Layout) (toolchain : Toolchain) (year : Nat) (r : Responder)
    (w : Workspace) (e : Event) : Changes → Responder → Prop
  | idle (hidle : ∀ way, Writes layout w e way →
      writeReaction (along layout.source way) (along layout.output way) = .ignore) :
      Growth layout toolchain year r w e [] r
  | copied {way : Location} (hwrites : Writes layout w e way)
      (hcopy : writeReaction (along layout.source way) (along layout.output way) =
        .copy (along layout.source way) (along layout.output way)) :
      Growth layout toolchain year r w e
        [Asset.copied r.config year w (along layout.source way) (along layout.output way)] r
  | built {v : Workspace} {es : List Emission} {config : Config} {runs : List Run}
      (hbuilds : Builds layout w e) (hes : toolchain.Emits layout.tsconfig v es) :
      Growth layout toolchain year r w e (Build.plan layout config year w es)
        { r with config, runs }

theorem writeReaction_cases (source target : Path) :
    writeReaction source target = .copy source target ∨
      writeReaction source target = .rebuild source ∨ writeReaction source target = .ignore := by
  rw [writeReaction]
  split
  · exact .inl rfl
  · split
    · exact .inr (.inr rfl)
    · split
      · exact .inr (.inl rfl)
      · exact .inr (.inr rfl)

theorem Writes.unique {a b : Location} (ha : Writes layout w e a) (hb : Writes layout w e b) :
    a = b := Option.some.inj (ha.2.1.symm.trans hb.2.1)

theorem not_writes {way : Location} (hk : e.kind ≠ .add) (hk' : e.kind ≠ .change) :
    ¬ Writes layout w e way := by
  rintro ⟨h | h, -⟩
  · exact hk h
  · exact hk' h

theorem writes_spared (h : layout.Spares w w') (hs : w.Stands layout.root)
    (hs' : w'.Stands layout.root) (way : Location) :
    Writes layout w' e way ↔ Writes layout w e way := by
  rw [Writes, Writes, h.current, h.isFile_source hs hs']

theorem Growth.spared {c : Changes} {year : Nat} (h : layout.Spares w w')
    (hs : w.Stands layout.root) (hs' : w'.Stands layout.root)
    (hgrowth : Growth layout toolchain year r w' e c r') :
    Growth layout toolchain year r w e c r' := by
  cases hgrowth with
  | idle hidle =>
    apply Growth.idle
    intro way hwrites
    exact hidle way ((writes_spared h hs hs' way).mpr hwrites)
  | @copied way hwrites hcopy =>
    rw [Build.copied_eq h r.config year _ (Layout.source_not_inside layout w.current way)]
    exact .copied ((writes_spared h hs hs' way).mp hwrites) hcopy
  | built hbuilds hes =>
    obtain ⟨way, hwrites, hrebuild⟩ := hbuilds
    rw [Build.plan_eq h]
    exact .built ⟨way, (writes_spared h hs hs' way).mp hwrites, hrebuild⟩ hes

theorem carried_rebuild (hsteps : steps.Building layout clock toolchain)
    (hs : w.Stands layout.root) {source : Path} (hbuilds : Builds layout w e)
    (h : Carried steps r w (.rebuild source) r' w') :
    ∃ c, Growth layout toolchain steps.year r w e c r' ∧ Build.Laid layout w c w' := by
  cases h with
  | built htree hcurrent hload hbuild =>
    obtain ⟨htree', hcurrent'⟩ := hsteps.load _ _ _ hload
    rw [hsteps.build] at hbuild
    have hv := Build.Laid.of_tree layout (htree'.trans htree) (hcurrent'.trans hcurrent)
    obtain ⟨u, es, hes, -, hlaid⟩ := Build.run_laid (hv.stands hs) hsteps.quiet hsteps.level hbuild
    rw [Build.plan_eq hv.spares, ← hsteps.year] at hlaid
    exact ⟨_, .built hbuilds hes, hv.trans hlaid⟩
  | performed hno h => exact absurd rfl (hno source)

theorem ignored_grows {year : Nat} (hidle : ∀ way, Writes layout w e way →
      writeReaction (along layout.source way) (along layout.output way) = .ignore)
    (h : Carried steps r w .ignore r' w') :
    ∃ c, Growth layout toolchain year r w e c r' ∧ Build.Laid layout w c w' := by
  obtain ⟨rfl, rfl⟩ := carried_ignore h
  exact ⟨[], .idle hidle, .refl layout w'⟩

theorem written_grows (hsteps : steps.Building layout clock toolchain)
    (hs : w.Stands layout.root) {way : Location} (hwrites : Writes layout w e way)
    (h : Carried steps r w (writeReaction (along layout.source way) (along layout.output way))
      r' w') :
    ∃ c, Growth layout toolchain steps.year r w e c r' ∧ Build.Laid layout w c w' := by
  rcases writeReaction_cases (along layout.source way) (along layout.output way) with
    hr | hr | hr
  · rw [hr] at h
    cases h with
    | performed hno h => exact ⟨_, .copied hwrites hr, Build.copy_laid hs h⟩
  · rw [hr] at h
    exact carried_rebuild hsteps hs ⟨way, hwrites, hr⟩ h
  · rw [hr] at h
    apply ignored_grows _ h
    intro way' hwrites'
    rw [← hwrites.unique hwrites', hr]

theorem respond_grows (hsteps : steps.Building layout clock toolchain)
    (hs : w.Stands layout.root) (hlayout : r.layout = layout)
    (hk : e.kind = .addDir ∨ e.kind = .add ∨ e.kind = .change)
    (h : r.respond steps e w = .ok (r', .ok x) w') :
    ∃ c, Growth layout toolchain steps.year r w e c r' ∧ Build.Laid layout w c w' := by
  obtain ⟨reaction, hreact, hcarried⟩ := respond_ok h
  rw [hlayout] at hreact
  rcases react_ok hreact with ⟨hnone, rfl⟩ | ⟨way, hway, hasks⟩
  · apply ignored_grows _ hcarried
    intro way hwrites
    have hway := hwrites.2.1
    rw [hnone] at hway
    cases hway
  · generalize hkind : e.kind = k at hasks hk
    cases hasks with
    | @write k b hwritten hf =>
      cases b with
      | false =>
        apply ignored_grows _ hcarried
        rintro way' ⟨-, hway', hf'⟩
        rw [hway] at hway'
        cases hway'
        rw [hf] at hf'
        cases hf'
      | true => exact written_grows hsteps hs ⟨hkind ▸ hwritten, hway, hf⟩ hcarried
    | kept => simp at hk
    | removed => simp at hk
    | directoryRemoved => simp at hk
    | @directoryAdded b _ =>
      have hidle (way : Location) (hwrites : Writes layout w e way) :
          writeReaction (along layout.source way) (along layout.output way) = .ignore :=
        absurd hwrites (not_writes (by simp [hkind]) (by simp [hkind]))
      cases b with
      | true => exact ignored_grows hidle hcarried
      | false =>
        cases hcarried with
        | performed hno h =>
          obtain ⟨_, v, hmake, hlog⟩ := Action.bind_eq_ok.mp h
          rw [Layout.output_along] at hmake
          have hlaid := Build.makeDirectories_laid hs (fun l => Layout.ground_of_output) hmake
          exact ⟨[], .idle hidle, hlaid.trans (Build.log_laid layout hlog)⟩

end

end ModBuild.Watch
