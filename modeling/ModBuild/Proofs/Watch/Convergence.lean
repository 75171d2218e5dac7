import ModBuild.Proofs.Watch.Observation

/-!
# Batches of changes

A batch reaches the responder as events that first add to the output and then
take away from it. What was taken away stays away, and where nothing is taken
away the last that was added stays, which for a module is its copy unless a
build gives the place to something else. So a module that a batch names is found
in the output after it unless some removal or a later build is in the way.
-/

set_option autoImplicit false

namespace ModBuild.Watch

open Asset (along)

inductive Handled (steps : Steps) :
    Responder → Workspace → List Event → Responder → Workspace → Prop
  | nil (r : Responder) (w : Workspace) : Handled steps r w [] r w
  | cons {r r₁ r' : Responder} {w w₁ w' : Workspace} {e : Event} {es : List Event}
      {x : Option Run} (h : r.respond steps e w = .ok (r₁, .ok x) w₁)
      (hrest : Handled steps r₁ w₁ es r' w') : Handled steps r w (e :: es) r' w'

section

variable {steps : Steps} {layout : Layout} {clock : Clock} {toolchain : Toolchain}
  {r r' : Responder} {w w' : Workspace} {es : List Event} {way : Location}

theorem handled_append {es' : List Event} (h : Handled steps r w (es ++ es') r' w') :
    ∃ r₁ w₁, Handled steps r w es r₁ w₁ ∧ Handled steps r₁ w₁ es' r' w' := by
  induction es generalizing r w with
  | nil => exact ⟨r, w, .nil r w, h⟩
  | cons e es ih =>
    cases h with
    | cons hstep hrest =>
      obtain ⟨r₁, w₁, h₁, h₂⟩ := ih hrest
      exact ⟨r₁, w₁, .cons hstep h₁, h₂⟩

theorem growth_layout {c : Changes} {e : Event} {year : Nat}
    (h : Growth layout toolchain year r w e c r') : r'.layout = r.layout := by
  cases h <;> rfl

inductive Grown (layout : Layout) (toolchain : Toolchain) (year : Nat) (w : Workspace) :
    Responder → List Event → Changes → Responder → Prop
  | nil (r : Responder) : Grown layout toolchain year w r [] [] r
  | cons {r r₁ r' : Responder} {e : Event} {es : List Event} {c c' : Changes}
      (hstep : Growth layout toolchain year r w e c r₁)
      (hrest : Grown layout toolchain year w r₁ es c' r') :
      Grown layout toolchain year w r (e :: es) (c ++ c') r'

theorem Grown.append {year : Nat} {r₁ : Responder} {es' : List Event} {c c' : Changes}
    (h : Grown layout toolchain year w r es c r₁)
    (h' : Grown layout toolchain year w r₁ es' c' r') :
    Grown layout toolchain year w r (es ++ es') (c ++ c') r' := by
  induction h with
  | nil r => exact h'
  | cons hstep hrest ih =>
    rw [List.cons_append, List.append_assoc]
    exact .cons hstep (ih h')

theorem Grown.spared {year : Nat} {c : Changes} (h : layout.Spares w w')
    (hs : w.Stands layout.root) (hs' : w'.Stands layout.root)
    (hgrown : Grown layout toolchain year w' r es c r') :
    Grown layout toolchain year w r es c r' := by
  induction hgrown with
  | nil r => exact .nil r
  | cons hstep hrest ih => exact .cons (hstep.spared h hs hs') ih

theorem grown_removals (layout : Layout) (toolchain : Toolchain) (year : Nat) (w : Workspace)
    (r : Responder) (hes : ∀ e ∈ es, e.Removes) : Grown layout toolchain year w r es [] r := by
  induction es with
  | nil => exact .nil r
  | cons e es ih =>
    have hidle (way : Location) : ¬ Writes layout w e way := by
      rcases hes e (by simp) with hk | hk
      · exact not_writes (by simp [hk]) (by simp [hk])
      · exact not_writes (by simp [hk]) (by simp [hk])
    have hrest := ih fun e' he' => hes e' (by simp [he'])
    exact .cons (.idle fun way hwrites => absurd hwrites (hidle way)) hrest

theorem handled_grows (hsteps : steps.Building layout clock toolchain)
    (hs : w.Stands layout.root) (hlayout : r.layout = layout) (hes : ∀ e ∈ es, e.Adds)
    (h : Handled steps r w es r' w') :
    r'.layout = layout ∧
      ∃ c, Grown layout toolchain steps.year w r es c r' ∧ Build.Laid layout w c w' := by
  induction h with
  | nil r w => exact ⟨hlayout, [], .nil r, .refl layout w⟩
  | cons hstep hrest ih =>
    obtain ⟨c, hgrowth, hlaid⟩ := respond_grows hsteps hs hlayout (hes _ (by simp)) hstep
    have hs₁ := hlaid.stands hs
    obtain ⟨hlayout', c', hgrown, hlaid'⟩ := ih hs₁
      ((growth_layout hgrowth).trans hlayout) (fun e he => hes e (by simp [he]))
    have hgrown' := hgrown.spared hlaid.spares hs hs₁
    exact ⟨hlayout', c ++ c', .cons hgrowth hgrown', hlaid.trans hlaid'⟩

/-- A build writes to the place of a source only what a copy of it would write. -/
structure Undisputed (layout : Layout) (toolchain : Toolchain) (year : Nat) (w : Workspace)
    (way : Location) : Prop where
  plain : way.any Asset.transpiled = false
  library : ∀ config, ∀ x ∈ Build.libraries layout config year w,
    x.1 ≠ (along layout.output way).location w.current
  module : ∀ config v es, toolchain.Emits layout.tsconfig v es →
    ∀ x ∈ Build.modules layout config year w.current es,
      x.1 ≠ (along layout.output way).location w.current

theorem writeReaction_lua {source target : Path}
    (h : Text.lower source.suffix = ".lua".toList) :
    writeReaction source target = .copy source target := by
  rw [writeReaction, if_pos h]

theorem plan_undisputed {year : Nat} {config : Config} {v : Workspace} {es : List Emission}
    (hscope : Build.InScope way)
    (hfile : w.tree.file? ((along layout.source way).location w.current) ≠ none)
    (hes : toolchain.Emits layout.tsconfig v es)
    (hu : Undisputed layout toolchain year w way) (files : Location → Option ByteArray) :
    overlay (Build.plan layout config year w es) files
        ((along layout.output way).location w.current) =
      (Asset.copied config year w (along layout.source way) (along layout.output way)).2 := by
  have hmem : Asset.copied config year w (along layout.source way) (along layout.output way) ∈
      Build.plan layout config year w es := by
    rw [Build.plan, List.mem_append, List.mem_append]
    exact .inl (.inl ((Build.mem_assets _).mpr ⟨way, hscope, hu.plain, hfile, rfl⟩))
  obtain ⟨x, hx, he, hlast⟩ := overlay_at (Build.plan layout config year w es) files
    ((along layout.output way).location w.current) ⟨_, hmem, rfl⟩
  rw [hlast]
  rcases List.mem_append.mp hx with hx | hx
  · rcases List.mem_append.mp hx with hx | hx
    · obtain ⟨way', -, -, -, rfl⟩ := (Build.mem_assets x).mp hx
      rw [Asset.way_of_location he]
    · exact absurd he (hu.library config x hx)
  · exact absurd he (hu.module config v es hes x hx)

theorem growth_copies {year : Nat} {c : Changes} {e : Event} {later : Prop}
    {files : Location → Option ByteArray} (hscope : Build.InScope way)
    (hlua : Text.lower (along layout.source way).suffix = ".lua".toList)
    (hfile : w.tree.file? ((along layout.source way).location w.current) ≠ none)
    (hbuild : Builds layout w e → later ∨ Undisputed layout toolchain year w way)
    (hwritten : files ((along layout.output way).location w.current) =
        (Asset.copied r.config year w (along layout.source way) (along layout.output way)).2 ∨
      Writes layout w e way ∨ later)
    (h : Growth layout toolchain year r w e c r') :
    overlay c files ((along layout.output way).location w.current) =
        (Asset.copied r'.config year w (along layout.source way) (along layout.output way)).2 ∨
      later := by
  cases h with
  | idle hidle =>
    rcases hwritten with hthere | hwrites | hlater
    · exact .inl hthere
    · have hignore := hidle way hwrites
      rw [writeReaction_lua hlua] at hignore
      cases hignore
    · exact .inr hlater
  | @copied way' hwrites' hcopy =>
    by_cases hsame : way' = way
    · rw [hsame]
      exact .inl (if_pos rfl)
    · -- the copy of another way goes to another place
      have hother : overlay [Asset.copied r.config year w (along layout.source way')
          (along layout.output way')] files ((along layout.output way).location w.current) =
            files ((along layout.output way).location w.current) := by
        apply overlay_untouched
        intro x hx he
        obtain rfl := List.mem_singleton.mp hx
        exact hsame (Asset.way_of_location he)
      rw [hother]
      rcases hwritten with hthere | hwrites | hlater
      · exact .inl hthere
      · exact absurd (hwrites'.unique hwrites) hsame
      · exact .inr hlater
  | @built v es config runs hbuilds hes =>
    rcases hbuild hbuilds with hlater | hu
    · exact .inr hlater
    · exact .inl (plan_undisputed hscope hfile hes hu files)

/-- Where every build that disputes the place of a module is followed by a write
of the module, the last that events give to the place is its copy. -/
theorem grown_copies {year : Nat} {c : Changes} {files : Location → Option ByteArray}
    (hscope : Build.InScope way)
    (hlua : Text.lower (along layout.source way).suffix = ".lua".toList)
    (hfile : w.tree.file? ((along layout.source way).location w.current) ≠ none)
    (hbuild : ∀ before e after, es = before ++ e :: after → Builds layout w e →
      (∃ e' ∈ after, Writes layout w e' way) ∨ Undisputed layout toolchain year w way)
    (hwritten : files ((along layout.output way).location w.current) =
        (Asset.copied r.config year w (along layout.source way) (along layout.output way)).2 ∨
      ∃ e ∈ es, Writes layout w e way)
    (h : Grown layout toolchain year w r es c r') :
    overlay c files ((along layout.output way).location w.current) =
      (Asset.copied r'.config year w (along layout.source way) (along layout.output way)).2 := by
  -- what is carried along: the copy is there, or the event that makes it is to come
  induction h generalizing files with
  | nil r => exact hwritten.resolve_right (by simp)
  | @cons r r₁ r' e es c c' hstep hrest ih =>
    rw [overlay_append]
    apply ih
    · intro before e' after he
      exact hbuild (e :: before) e' after (by rw [he]; rfl)
    · apply growth_copies hscope hlua hfile (hbuild [] e es rfl) _ hstep
      rcases hwritten with hthere | ⟨e', he', hwrites⟩
      · exact .inl hthere
      · rcases List.mem_cons.mp he' with rfl | he'
        · exact .inr (.inl hwrites)
        · exact .inr (.inr ⟨e', he', hwrites⟩)

theorem grown_fills {year : Nat} {c : Changes}
    (hlua : Text.lower (along layout.source way).suffix = ".lua".toList)
    (hwritten : ∃ e ∈ es, Writes layout w e way)
    (h : Grown layout toolchain year w r es c r') :
    ∃ x ∈ c, x.1 = (along layout.output way).location w.current := by
  induction h with
  | nil r => simp at hwritten
  | @cons r r₁ r' e es c c' hstep hrest ih =>
    obtain ⟨e', he', hwrites⟩ := hwritten
    rcases List.mem_cons.mp he' with rfl | he'
    · have hcopy : writeReaction (along layout.source way) (along layout.output way) =
          .copy (along layout.source way) (along layout.output way) := writeReaction_lua hlua
      cases hstep with
      | idle hidle =>
        rw [hidle way hwrites] at hcopy
        cases hcopy
      | copied hwrites' _ =>
        rw [hwrites'.unique hwrites]
        exact ⟨_, List.mem_append_left c' (List.mem_singleton_self _), rfl⟩
      | built hbuilds _ =>
        obtain ⟨way', hwrites', hrebuild⟩ := hbuilds
        rw [hwrites'.unique hwrites, hcopy] at hrebuild
        cases hrebuild
    · obtain ⟨x, hx, hl⟩ := ih ⟨e', he', hwrites⟩
      exact ⟨x, List.mem_append_right c hx, hl⟩

theorem handled_shrinks (hlayout : r.layout = layout) (hes : ∀ e ∈ es, e.Removes)
    (h : Handled steps r w es r' w') : r' = r ∧ Shrinks layout w w' := by
  induction h with
  | nil r w => exact ⟨rfl, .refl layout w⟩
  | cons hstep hrest ih =>
    obtain ⟨rfl, hshrinks⟩ := respond_shrinks hlayout (hes _ (by simp)) hstep
    obtain ⟨hsame, hshrinks'⟩ := ih hlayout (fun e he => hes e (by simp [he]))
    exact ⟨hsame, hshrinks.trans hshrinks'⟩

theorem handled_spares (way : Location) (hlayout : r.layout = layout) (hes : ∀ e ∈ es, e.Removes)
    (hno : ∀ e ∈ es, ¬ Strikes layout w.current e way) (h : Handled steps r w es r' w') :
    w'.tree.file? ((along layout.output way).location w.current) =
      w.tree.file? ((along layout.output way).location w.current) := by
  induction h with
  | nil r w => rfl
  | cons hstep hrest ih =>
    obtain ⟨rfl, hshrinks⟩ := respond_shrinks hlayout (hes _ (by simp)) hstep
    have hfirst := respond_spared hlayout (hes _ (by simp)) (hno _ (by simp)) hstep
    rw [hshrinks.current] at ih
    rw [ih hlayout (fun e he => hes e (by simp [he])) (fun e he => hno e (by simp [he])), hfirst]

theorem handled_strikes (hlayout : r.layout = layout) (hes : ∀ e ∈ es, e.Removes)
    (hs : w'.Stands layout.root) (hnull : '\x00' ∉ (along layout.output way).print)
    (hstruck : ∃ e ∈ es, Strikes layout w.current e way) (h : Handled steps r w es r' w') :
    w'.tree.file? ((along layout.output way).location w.current) = none := by
  induction h with
  | nil r w => simp at hstruck
  | @cons r r₁ r' w w₁ w' e es x hstep hrest ih =>
    obtain ⟨rfl, hshrinks⟩ := respond_shrinks hlayout (hes e (by simp)) hstep
    have hrest' : ∀ e' ∈ es, e'.Removes := fun e' he' => hes e' (by simp [he'])
    obtain ⟨-, hlater⟩ := handled_shrinks hlayout hrest' hrest
    obtain ⟨e', he', hstrikes⟩ := hstruck
    rcases List.mem_cons.mp he' with rfl | he'
    · have hgone := respond_struck ((hshrinks.trans hlater).stands hs) hlayout hnull hstrikes hstep
      rcases hlater.file ((along layout.output way).location w.current) with hsame | hnone
      · rw [hsame, hgone]
      · exact hnone
    · rw [hshrinks.current] at ih
      exact ih hlayout hrest' hs ⟨e', he', hstrikes⟩

end

def Change.Names (layout : Layout) (current : Location) (c : Change) (way : Location) : Prop :=
  '\\' ∉ (c.absolute current).print ∧
    wayOf? layout current (c.absolute current).print = some way

/-- What stands although it is reported as deleted is reported as added, too. -/
def Reported (w : Workspace) (changes : List Change) : Prop :=
  ∀ c ∈ changes, c.kind = .deleted →
    w.tree.get? ((c.absolute w.current).location w.current) ≠ none →
    ∃ c' ∈ changes, c'.kind = .added ∧ c'.path = c.path

def Struck (layout : Layout) (known : List Text) (current : Location) (changes : List Change)
    (way : Location) : Prop :=
  ∃ c ∈ changes, c.kind = .deleted ∧ Strikes layout current (c.removal known current) way

theorem eventWay_of_scope {layout : Layout} {current : Location} {e : Event} {way : Location}
    (hscope : Build.InScope way) (h : wayOf? layout current e.path = some way) :
    eventWay? layout current e = some way := by
  rw [eventWay?, h, Option.filter_some, if_pos]
  obtain ⟨s, -, rest, hne, rfl⟩ := hscope
  obtain ⟨n, rest, rfl⟩ := List.exists_cons_of_ne_nil hne
  have hslash : '/' ∈ Text.lower (written (s.name :: n :: rest)) := by
    rw [Text.lower, List.mem_map]
    refine ⟨'/', ?_, by decide⟩
    rw [written, Path.print, if_neg (by simp), List.map_cons, List.map_cons, List.map_cons,
      List.map_cons, Text.join, List.intercalate_cons_cons]
    simp
  have hfree : ∀ t ∈ reserved, '/' ∉ t := by decide
  by_contra hc
  have hmem : Text.lower (written (s.name :: n :: rest)) ∈ reserved := by simpa using hc
  exact hfree _ hmem hslash

theorem eventPath_plain (layout : Layout) {p : Path} (habsolute : p.isAbsolute = true)
    (hslash : '\\' ∉ p.print) : eventPath layout p.print = p := by
  have hplain : Emission.slashed p.print = p.print := by
    refine (List.map_congr_left fun x hx => ?_).trans (List.map_id _)
    rw [if_neg]
    · rfl
    · rintro rfl
      exact hslash hx
  rw [eventPath, hplain, Path.parse_print]
  exact if_pos habsolute

theorem names_location {layout : Layout} {current : Location} {c : Change} {way : Location}
    (h : c.Names layout current way) :
    (c.absolute current).location current = (along layout.source way).location current := by
  obtain ⟨hslash, hway⟩ := h
  obtain ⟨-, hlocation⟩ := wayOf_ok hway
  have hpath : eventPath layout (c.absolute current).print = c.absolute current :=
    eventPath_plain layout (Path.absolute_isAbsolute _ _) hslash
  rw [hpath] at hlocation
  rw [hlocation, Asset.location_along]

theorem removedWay_of_lua (base : Path) {way : Location}
    (h : Text.lower (along base way).suffix = ".lua".toList) (hne : way ≠ []) :
    removedWay? way = some way := by
  obtain ⟨dir, n, rfl⟩ := (List.eq_nil_or_concat' way).resolve_left hne
  have hname : (along base (dir ++ [n])).name = n.text := by
    simp [Asset.along_eq, Path.name, Segment.text]
  have hsuffix : ".lua".toList <:+ Text.lower n.text := by
    rw [Path.suffix, hname] at h
    split at h
    · next c ext d rest hcut =>
      obtain ⟨hcut, -⟩ := (Text.cutAt?_eq_some_iff _ _ _ _).mp hcut
      have htext : n.text = (d :: rest).reverse ++ '.' :: (c :: ext).reverse := by
        have := congrArg List.reverse hcut
        simpa using this
      rw [← h, htext, Text.lower_append]
      exact List.suffix_append _ _
    · cases h
  have hno (t : Text) (ht : Text.endsWith t (Text.lower n.text) = true)
      (hlast : t.getLast? ≠ some 'a') (hpos : t ≠ []) : False := by
    obtain ⟨a, ha⟩ := hsuffix
    obtain ⟨b, hb⟩ := (Text.endsWith_iff _ _).mp ht
    have hend : (Text.lower n.text).getLast? = some 'a' := by
      rw [← ha]
      simp
    rw [← hb, List.getLast?_append_of_ne_nil _ hpos] at hend
    exact hlast hend
  rw [removedWay?, List.getLast?_concat, List.dropLast_concat, Option.bind_some, removedName?,
    if_neg (fun ht => hno _ ht (by decide) (by decide)),
    if_neg (fun ht => hno _ ht (by decide) (by decide))]
  rfl

theorem null_output {layout : Layout} {way : Location}
    (h : '\x00' ∉ (along layout.source way).print) : '\x00' ∉ (along layout.output way).print := by
  rw [Layout.source_along] at h
  rw [Layout.output_along]
  apply Asset.null_along
  · intro hc
    obtain ⟨s, hs, hc⟩ := Path.null_of_print hc
    apply h
    apply Path.null_print (s := s) _ hc
    rw [Asset.along_eq]
    exact List.mem_append_left _ hs
  · intro n hn hc
    rcases List.mem_cons.mp hn with rfl | hn
    · exact absurd hc (by decide)
    · rcases List.mem_cons.mp hn with rfl | hn
      · exact absurd hc (by decide)
      · apply h
        apply Path.null_print (s := .name n) _ hc
        rw [Asset.along_eq]
        exact List.mem_append_right _ (List.mem_map_of_mem (List.mem_cons_of_mem _ hn))

structure Phases (steps : Steps) (layout : Layout) (toolchain : Toolchain) (known : List Text)
    (changes : List Change) (r : Responder) (w : Workspace) (adds removals : List Event)
    (c : Changes) (w₁ : Workspace) (r' : Responder) (w' : Workspace) : Prop where
  removing : ∀ e ∈ removals, e.Removes
  grown : Grown layout toolchain steps.year w r adds c r'
  laid : Build.Laid layout w c w₁
  removed : Handled steps r' w₁ removals r' w'
  layout_eq : r'.layout = layout
  shrinks : Shrinks layout w₁ w'
  deleted : ∀ e, e ∈ removals ↔ ∃ c ∈ changes, c.kind = .deleted ∧ e = c.removal known w.current
  written : ∀ c ∈ changes, c.kind ≠ .deleted → w.isDirectory (c.absolute w.current) ≠ .ok true →
    ∃ k, (k = .add ∨ k = .change) ∧ ⟨k, (c.absolute w.current).print⟩ ∈ adds

section

variable {steps : Steps} {layout : Layout} {clock : Clock} {toolchain : Toolchain}
  {r r' : Responder} {watcher watcher' : Watcher} {changes : List Change}
  {events adds removals : List Event} {c : Changes} {w v w₁ w' : Workspace} {known : List Text}
  {way : Location}

theorem phases_of_observe (hsteps : steps.Building layout clock toolchain)
    (hlayout : r.layout = layout) (hroot : w.Stands layout.root)
    (hobserve : watcher.observe changes w = .ok (events, watcher') v)
    (hhandled : Handled steps r v events r' w') :
    ∃ adds removals c w₁, events = adds ++ removals ∧
      Phases steps layout toolchain watcher.known changes r w adds removals c w₁ r' w' := by
  obtain ⟨rfl, adds, removals, rfl, hadds, hremovals, hwrites⟩ := observe_splits hobserve
  obtain ⟨r₁, w₁, h₁, h₂⟩ := handled_append hhandled
  obtain ⟨hlayout₁, c, hgrown, hlaid⟩ := handled_grows hsteps hroot hlayout hadds h₁
  have hremoves : ∀ e ∈ removals, e.Removes := by
    intro e he
    obtain ⟨c, -, -, rfl⟩ := (hremovals e).mp he
    rw [Change.removal]
    split
    · exact .inr rfl
    · exact .inl rfl
  obtain ⟨rfl, hshrinks⟩ := handled_shrinks hlayout₁ hremoves h₂
  exact ⟨adds, removals, c, w₁, rfl, hremoves, hgrown, hlaid, h₂, hlayout₁, hshrinks, hremovals,
    hwrites⟩

namespace Phases

theorem gone (h : Phases steps layout toolchain known changes r w adds removals c w₁ r' w')
    (hroot' : w'.Stands layout.root) (hnull : '\x00' ∉ (along layout.output way).print)
    (hstruck : Struck layout known w.current changes way) :
    w'.tree.file? ((along layout.output way).location w.current) = none := by
  obtain ⟨c, hc, hk, hstrikes⟩ := hstruck
  have hgone := handled_strikes h.layout_eq h.removing hroot' hnull
    ⟨_, (h.deleted _).mpr ⟨c, hc, hk, rfl⟩, by rwa [h.laid.current]⟩ h.removed
  rwa [h.laid.current] at hgone

theorem kept (h : Phases steps layout toolchain known changes r w adds removals c w₁ r' w')
    (hno : ¬ Struck layout known w.current changes way) :
    w'.tree.file? ((along layout.output way).location w.current) =
      overlay c w.tree.file? ((along layout.output way).location w.current) := by
  have hkept := handled_spares way h.layout_eq h.removing (fun e he hstrikes => by
    obtain ⟨c, hc, hk, rfl⟩ := (h.deleted e).mp he
    rw [h.laid.current] at hstrikes
    exact hno ⟨c, hc, hk, hstrikes⟩) h.removed
  rw [h.laid.current] at hkept
  rw [hkept, h.laid.leads.files]

theorem event_of_names
    (h : Phases steps layout toolchain known changes r w adds removals c w₁ r' w')
    (hreported : Reported w changes) (hscope : Build.InScope way)
    (hfile : w.isFile (along layout.source way) = .ok true)
    (hnamed : ∃ c ∈ changes, c.Names layout w.current way) :
    ∃ e ∈ adds, Writes layout w e way := by
  obtain ⟨-, bytes, hget⟩ := Workspace.file_of_isFile hfile
  have hwritten : ∃ c ∈ changes, c.kind ≠ .deleted ∧ c.Names layout w.current way := by
    obtain ⟨c, hc, hname⟩ := hnamed
    by_cases hk : c.kind = .deleted
    · have hstands : w.tree.get? ((c.absolute w.current).location w.current) ≠ none := by
        rw [names_location hname, hget]
        simp
      obtain ⟨c', hc', hk', hpath⟩ := hreported c hc hk hstands
      have hsame : c'.absolute w.current = c.absolute w.current := by
        rw [Change.absolute, Change.absolute, hpath]
      refine ⟨c', hc', by simp [hk'], ?_⟩
      rw [Change.Names, hsame]
      exact hname
    · exact ⟨c, hc, hk, hname⟩
  obtain ⟨c, hc, hk, hname⟩ := hwritten
  have hno : w.isDirectory (c.absolute w.current) ≠ .ok true := by
    intro hd
    have hdirectory := Workspace.Stands.directory hd
    rw [names_location hname, hget] at hdirectory
    cases hdirectory
  obtain ⟨k, hk', he⟩ := h.written c hc hk hno
  exact ⟨_, he, hk', eventWay_of_scope hscope hname.2, hfile⟩

end Phases

theorem struck_of_deleted {d : Change} (hscope : Build.InScope way)
    (hlua : Text.lower (along layout.source way).suffix = ".lua".toList) (hd : d ∈ changes)
    (hk : d.kind = .deleted) (hknown : known.contains (d.absolute w.current).print = false)
    (hway : wayOf? layout w.current (d.absolute w.current).print = some way) :
    Struck layout known w.current changes way := by
  have hremoval : d.removal known w.current = ⟨.unlink, (d.absolute w.current).print⟩ := by
    rw [Change.removal, hknown]
    rfl
  have hne : way ≠ [] := by
    obtain ⟨s, -, rest, -, rfl⟩ := hscope
    simp
  refine ⟨d, hd, hk, way, ?_, .inl ⟨by rw [hremoval], removedWay_of_lua _ hlua hne⟩⟩
  rw [hremoval]
  exact eventWay_of_scope hscope hway

end

def Mirrored (layout : Layout) (year : Nat) (config : Config) (w w' : Workspace)
    (way : Location) : Prop :=
  ∃ b, (Asset.copied config year w (along layout.source way) (along layout.output way)).2 =
      some b ∧
    w'.tree.file? ((along layout.output way).location w.current) = some b

/-- After all the changes the place of a way holds what a copy of it writes. -/
def Prevails (layout : Layout) (year : Nat) (config : Config) (w : Workspace) (c : Changes)
    (way : Location) : Prop :=
  overlay c w.tree.file? ((along layout.output way).location w.current) =
    (Asset.copied config year w (along layout.source way) (along layout.output way)).2

/-- After a batch that is answered without a failure, the output has a copy of
each module that the batch names and the sources hold, if and only if no deletion
of the batch strikes the place of the module and its copy is the last that the
events give to the place, as it is where every build that disputes the place is
followed by a write of the module. Of a module that was deleted it has nothing. -/
theorem handled_converges (steps : Steps) (layout : Layout) (clock : Clock)
    (toolchain : Toolchain) (r r' : Responder) (watcher watcher' : Watcher)
    (changes : List Change) (events : List Event) (w v w' : Workspace)
    (hsteps : steps.Building layout clock toolchain) (hlayout : r.layout = layout)
    (hroot : w.Stands layout.root) (hroot' : w'.Stands layout.root)
    (hreported : Reported w changes)
    (hobserve : watcher.observe changes w = .ok (events, watcher') v)
    (hhandled : Handled steps r v events r' w') :
    ∃ c, Grown layout toolchain steps.year w r events c r' ∧
      (∀ way, Build.InScope way →
        Text.lower (along layout.source way).suffix = ".lua".toList →
        (∃ c ∈ changes, c.Names layout w.current way) →
        w.isFile (along layout.source way) = .ok true →
        (Mirrored layout steps.year r'.config w w' way ↔
          ¬ Struck layout watcher.known w.current changes way ∧
            Prevails layout steps.year r'.config w c way) ∧
        ((∀ before e after, events = before ++ e :: after → Builds layout w e →
            (∃ e' ∈ after, Writes layout w e' way) ∨
              Undisputed layout toolchain steps.year w way) →
          Prevails layout steps.year r'.config w c way)) ∧
      ∀ way, Build.InScope way →
        Text.lower (along layout.source way).suffix = ".lua".toList →
        (∃ c ∈ changes, c.kind = .deleted ∧
          watcher.known.contains (c.absolute w.current).print = false ∧
          wayOf? layout w.current (c.absolute w.current).print = some way) →
        w'.isFile (along layout.output way) ≠ .ok true := by
  obtain ⟨adds, removals, c, w₁, rfl, hphases⟩ :=
    phases_of_observe hsteps hlayout hroot hobserve hhandled
  have hgrown := hphases.grown.append
    (grown_removals layout toolchain steps.year w r' hphases.removing)
  rw [List.append_nil] at hgrown
  refine ⟨c, hgrown, ?_, ?_⟩
  · intro way hscope hlua hnamed hfile
    obtain ⟨hresolve, bytes, hget⟩ := Workspace.file_of_isFile hfile
    have hnull := null_output (Workspace.resolve_ok hresolve).1
    obtain ⟨e, he, hwrites⟩ := hphases.event_of_names hreported hscope hfile hnamed
    have hwritten : ∃ e ∈ adds ++ removals, Writes layout w e way :=
      ⟨e, List.mem_append_left removals he, hwrites⟩
    refine ⟨⟨?_, ?_⟩, ?_⟩
    · intro ⟨b, hb, hsome⟩
      have hno : ¬ Struck layout watcher.known w.current changes way := by
        intro hstruck
        rw [hphases.gone hroot' hnull hstruck] at hsome
        cases hsome
      rw [hphases.kept hno, ← hb] at hsome
      exact ⟨hno, hsome⟩
    · intro ⟨hno, hlast⟩
      obtain ⟨x, hx, -, hfinal⟩ := overlay_at c w.tree.file?
        ((along layout.output way).location w.current) (grown_fills hlua hwritten hgrown)
      obtain ⟨b, hb⟩ := Option.isSome_iff_exists.mp (hphases.laid.filled x hx)
      rw [hb] at hfinal
      exact ⟨b, hlast.symm.trans hfinal, (hphases.kept hno).trans hfinal⟩
    · intro hbuild
      have hthere : w.tree.file? ((along layout.source way).location w.current) ≠ none := by
        rw [Tree.file?, hget]
        simp [Entry.bytes?]
      exact grown_copies hscope hlua hthere hbuild (.inr hwritten) hgrown
  · rintro way hscope hlua ⟨e, he, hk, hknown, hway⟩ hfile
    obtain ⟨hresolve, bytes, hget⟩ := Workspace.file_of_isFile hfile
    have hgone := hphases.gone hroot' (Workspace.resolve_ok hresolve).1
      (struck_of_deleted hscope hlua he hk hknown hway)
    rw [hphases.shrinks.current, hphases.laid.current] at hget
    rw [Tree.file?, hget] at hgone
    cases hgone

def answers (steps : Steps) :
    Responder → Workspace → List Event → Option (Responder × Workspace)
  | r, w, [] => some (r, w)
  | r, w, e :: es =>
    match r.respond steps e w with
    | .ok (r₁, .ok _) w₁ => answers steps r₁ w₁ es
    | _ => none

theorem handled_of_answers {steps : Steps} {r r' : Responder} {w w' : Workspace}
    {es : List Event} (h : answers steps r w es = some (r', w')) :
    Handled steps r w es r' w' := by
  induction es generalizing r w with
  | nil =>
    cases h
    exact .nil _ _
  | cons e es ih =>
    rw [answers] at h
    split at h
    · next hstep => exact .cons hstep (ih h)
    · cases h

/-! A project with one module that has not been copied yet. -/

def sampleModule : Location := [Scope.client.name, ⟨"note.lua".toList, by decide⟩]

def sampleProject : Workspace where
  tree := (Except.toOption do
    let t ← Tree.empty.makeDirectory [Layout.sourceName]
    let t ← t.makeDirectory [Layout.sourceName, Scope.client.name]
    t.writeFile (Layout.sourceName :: sampleModule) (Text.encode "return 1".toList)).getD .empty

def sampleLayout : Layout := Layout.choose none none

def sampleSteps : Steps where
  load := pure {}
  build config := Build.run sampleLayout config Build.sampleClock Build.sampleToolchain
  year := Build.sampleClock.year

def sampleResponder : Responder := ⟨sampleLayout, {}, []⟩

def sampleWatcher : Watcher := { directory := Path.ofLocation [Layout.sourceName] }

def sampleChange (kind : ChangeKind) : Change := ⟨kind, "src/client/note.lua".toList⟩

theorem sample_building :
    sampleSteps.Building sampleLayout Build.sampleClock Build.sampleToolchain where
  load v config v' h := by
    obtain ⟨-, rfl⟩ := Action.pure_eq_ok.mp h
    exact ⟨rfl, rfl⟩
  build := rfl
  year := rfl
  quiet v emitted v' h := by
    obtain ⟨-, rfl⟩ := Action.pure_eq_ok.mp h
    exact ⟨rfl, rfl⟩
  level v es h := by
    obtain ⟨v', h⟩ := h
    cases h
    decide

def sampleOutcome (changes : List Change) : Option (List Event × Watcher × Workspace ×
    Responder × Workspace) :=
  match sampleWatcher.observe changes sampleProject with
  | .ok (events, watcher) v =>
    (answers sampleSteps sampleResponder v events).map fun x => (events, watcher, v, x)
  | .error _ _ => none

theorem sampleOutcome_eq {changes : List Change} {events : List Event} {watcher : Watcher}
    {v w' : Workspace} {r' : Responder}
    (h : sampleOutcome changes = some (events, watcher, v, r', w')) :
    sampleWatcher.observe changes sampleProject = .ok (events, watcher) v ∧
      Handled sampleSteps sampleResponder v events r' w' := by
  rw [sampleOutcome] at h
  split at h
  · next hobserve =>
    obtain ⟨x, hx, heq⟩ := Option.map_eq_some_iff.mp h
    cases heq
    exact ⟨hobserve, handled_of_answers hx⟩
  · cases h

theorem sample_change_copied : ∃ events watcher v r' w',
    sampleWatcher.observe [sampleChange .modified] sampleProject = .ok (events, watcher) v ∧
      Handled sampleSteps sampleResponder v events r' w' ∧
      w'.tree.file? (Layout.mediaName :: Layout.luaName :: sampleModule) =
        some (Text.encode "return 1".toList) := by
  have hrun : ((sampleOutcome [sampleChange .modified]).any fun (events, _, _, r', w') =>
      decide (events = [⟨.change, "/src/client/note.lua".toList⟩]) && decide (r'.config = {}) &&
        decide (w'.Stands sampleLayout.root)) = true := by
    decide +kernel
  obtain ⟨⟨events, watcher, v, r', w'⟩, hout, hrun⟩ := (Option.any_eq_true _ _).mp hrun
  obtain ⟨hobserve, hhandled⟩ := sampleOutcome_eq hout
  simp only [Bool.and_eq_true, decide_eq_true_eq] at hrun
  obtain ⟨⟨rfl, hconfig⟩, hroot'⟩ := hrun
  have hway : wayOf? sampleLayout [] "/src/client/note.lua".toList = some sampleModule := by
    decide +kernel
  obtain ⟨c, -, hmodules, -⟩ := handled_converges sampleSteps sampleLayout Build.sampleClock
    Build.sampleToolchain sampleResponder r' sampleWatcher watcher [sampleChange .modified] _
    sampleProject v w' sample_building rfl (by decide +kernel) hroot'
    (fun c hc hk => by simp [List.mem_singleton.mp hc, sampleChange] at hk) hobserve hhandled
  obtain ⟨hiff, hprevails⟩ := hmodules sampleModule ⟨.client, by decide, _, by decide, rfl⟩
    (by decide +kernel) ⟨_, List.mem_singleton_self _, by decide +kernel, by decide +kernel⟩
    (by decide +kernel)
  have hno : ¬ Struck sampleLayout sampleWatcher.known sampleProject.current
      [sampleChange .modified] sampleModule := by
    rintro ⟨c, hc, hk, -⟩
    simp [List.mem_singleton.mp hc, sampleChange] at hk
  have hlast := hprevails (by
    rintro before e after he ⟨way, ⟨-, hown, -⟩, hrebuild⟩
    have hmem : e ∈ [⟨.change, "/src/client/note.lua".toList⟩] := by rw [he]; simp
    obtain rfl := List.mem_singleton.mp hmem
    obtain rfl : sampleModule = way := Option.some.inj (hway.symm.trans (eventWay_eq hown).1)
    exact absurd hrebuild (by decide +kernel))
  obtain ⟨b, hb, hsome⟩ := hiff.mpr ⟨hno, hlast⟩
  rw [hconfig] at hb
  obtain rfl : Text.encode "return 1".toList = b :=
    Option.some.inj (Eq.trans (by decide +kernel) hb)
  exact ⟨_, watcher, v, r', w', hobserve, hhandled, hsome⟩

/-- A module that was removed and written again loses its copy: both changes are
reported, and the removal is answered last. -/
theorem sample_rewrite_lost : ∃ events watcher v r' w',
    Reported sampleProject [sampleChange .deleted, sampleChange .added] ∧
      sampleWatcher.observe [sampleChange .deleted, sampleChange .added] sampleProject =
        .ok (events, watcher) v ∧
      Handled sampleSteps sampleResponder v events r' w' ∧
      w'.isFile (along sampleLayout.source sampleModule) = .ok true ∧
      w'.occupied (sampleLayout.source / "client/note.ts".toList) = .ok false ∧
      w'.isFile (along sampleLayout.output sampleModule) = .ok false := by
  have hrun : ((sampleOutcome [sampleChange .deleted, sampleChange .added]).any
      fun (_, _, _, _, w') =>
        decide (w'.isFile (along sampleLayout.source sampleModule) = .ok true) &&
          decide (w'.occupied (sampleLayout.source / "client/note.ts".toList) = .ok false) &&
          decide (w'.isFile (along sampleLayout.output sampleModule) = .ok false)) = true := by
    decide +kernel
  obtain ⟨⟨events, watcher, v, r', w'⟩, hout, hrun⟩ := (Option.any_eq_true _ _).mp hrun
  obtain ⟨hobserve, hhandled⟩ := sampleOutcome_eq hout
  simp only [Bool.and_eq_true, decide_eq_true_eq] at hrun
  refine ⟨events, watcher, v, r', w', ?_, hobserve, hhandled, hrun.1.1, hrun.1.2, hrun.2⟩
  intro c hc _ _
  refine ⟨sampleChange .added, by simp, rfl, ?_⟩
  simp only [List.mem_cons, List.not_mem_nil, or_false] at hc
  rcases hc with rfl | rfl <;> rfl

end ModBuild.Watch
