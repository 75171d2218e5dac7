import ModBuild.Proofs.Watch.Removal
import ModBuild.Proofs.Workspace.Within

/-!
# Where an event can reach

An event is read from a text that may be anything. Whatever it says, an answer
that is no build stays with the way of the event in the output, apart from the
missing directories that lead there; and it fails, if it fails, without having
reached further.
-/

set_option autoImplicit false

namespace ModBuild.Watch

open Asset (along)

/-- What an event about a way of the sources may change: the same way in the
output with what is below it, and for a removed TypeScript file the module of
its stem. -/
inductive Reached (layout : Layout) (e : Event) (own : Location) (current l : Location) : Prop
  | below (h : (along layout.output own).location current <+: l)
  | module {n : Name} (hkind : e.kind = .unlink) (hname : own.getLast? = some n)
      (htypes : Text.endsWith Asset.typeScriptExtension (Text.lower n.text) = true)
      (h : l = (along layout.output (own.dropLast ++ [moduleName n])).location current)

def Leading (layout : Layout) (own current l : Location) : Prop :=
  (along layout.output own).Outer current l

section

variable {steps : Steps} {layout : Layout} {r : Responder} {e : Event} {w : Workspace}
  {own : Location}

theorem perform_copy (source : Path) :
    Action.Within (Workspace.Touches (Leading layout own) (Reached layout e own))
      (r.perform steps (.copy source (along layout.output own))) := by
  refine Action.within_copy (Action.within_makeDirectories fun current l h => ?_)
    (Action.within_writeBytes fun _ => .below (List.prefix_refl _))
  exact h.of_within (Path.isWithin_iff.mpr ⟨rfl, List.dropLast_prefix _⟩)

theorem perform_removeFile {way : Location} (hkind : e.kind = .unlink)
    (hway : removedWay? own = some way) :
    Action.Within (Workspace.Touches (Leading layout own) (Reached layout e own))
      (r.perform steps (.removeFile (along layout.output way))) := by
  refine Action.within_bind (Action.within_removeFile fun current => ?_) fun _ =>
    Action.within_log _ _ _
  obtain ⟨n, hlast, hway⟩ := Option.bind_eq_some_iff.mp hway
  obtain ⟨m, hname, rfl⟩ := Option.map_eq_some_iff.mp hway
  rw [removedName?] at hname
  split at hname
  · cases hname
  · split at hname
    · next htypes =>
      cases hname
      exact .module hkind hlast htypes rfl
    · cases hname
      rw [List.dropLast_append_getLast? n hlast]
      exact .below (List.prefix_refl _)

theorem perform_removeDirectory :
    Action.Within (Workspace.Touches (Leading layout own) (Reached layout e own))
      (r.perform steps (.removeDirectory (along layout.output own))) :=
  Action.within_bind (Action.within_removeTree fun _ _ h => .below h) fun _ =>
    Action.within_log _ _ _

theorem perform_createDirectory :
    Action.Within (Workspace.Touches (Leading layout own) (Reached layout e own))
      (r.perform steps (.createDirectory (along layout.output own))) :=
  Action.within_bind (Action.within_makeDirectories fun _ _ h => h) fun _ =>
    Action.within_log _ _ _

theorem perform_reached {reaction : Reaction} (hown : own ≠ [])
    (hasks : Asks layout w own e.kind reaction) :
    Action.Within (Workspace.Touches (Leading layout own) (Reached layout e own))
      (r.perform steps reaction) := by
  have hignore : Action.Within (Workspace.Touches (Leading layout own) (Reached layout e own))
      (r.perform steps .ignore) := Action.within_pure ()
  generalize hkind : e.kind = k at hasks
  cases hasks with
  | @write k b =>
    cases b with
    | false => exact hignore
    | true =>
      rcases writeReaction_cases (along layout.source own) (along layout.output own) with
        hr | hr | hr
      · rw [hr]
        exact perform_copy _
      · rw [hr]
        exact Action.within_pure ()
      · rw [hr]
        exact hignore
  | kept => exact hignore
  | @removed p b htarget =>
    rw [targetOfRemoved_along _ hown] at htarget
    obtain ⟨way, hway, rfl⟩ := Option.map_eq_some_iff.mp htarget
    cases b with
    | false => exact hignore
    | true => exact perform_removeFile hkind hway
  | @directoryRemoved b =>
    cases b with
    | false => exact hignore
    | true => exact perform_removeDirectory
  | @directoryAdded b =>
    cases b with
    | false => exact perform_createDirectory
    | true => exact hignore

theorem respond_final (hno : ∀ source, react r.layout e w ≠ .ok (.rebuild source)) :
    (r.respond steps e).final w = w ∨ ∃ reaction, react r.layout e w = .ok reaction ∧
      (r.respond steps e).final w = (r.perform steps reaction).final w := by
  unfold Responder.respond
  cases hreact : react r.layout e w with
  | error f =>
    left
    have hask : Action.ask (react r.layout e) w = .error f w := by rw [Action.ask, hreact]
    rw [Action.final, Action.bind_of_ok (Action.attempt_of_error hask)]
    rfl
  | ok reaction =>
    refine .inr ⟨reaction, rfl, ?_⟩
    have hask : Action.ask (react r.layout e) w = .ok reaction w := by rw [Action.ask, hreact]
    rw [Action.final, Action.bind_of_ok (Action.attempt_of_ok hask)]
    have hplain : Action.final (do
        let result ← Action.attempt (r.perform steps reaction)
        return (r, result.map fun _ => (none : Option Run)) : Action _) w =
          (r.perform steps reaction).final w := by
      cases hperform : r.perform steps reaction w with
      | ok u v =>
        rw [Action.final, Action.bind_of_ok (Action.attempt_of_ok hperform),
          Action.final_of_ok hperform]
        rfl
      | error f v =>
        rw [Action.final, Action.bind_of_ok (Action.attempt_of_error hperform),
          Action.final_of_error hperform]
        rfl
    cases reaction with
    | rebuild source => exact absurd hreact (hno source)
    | _ => exact hplain

theorem respond_ignored (hreact : react r.layout e w = .ok .ignore) :
    r.respond steps e w = .ok (r, .ok none) w := by
  unfold Responder.respond
  have hask : Action.ask (react r.layout e) w = .ok .ignore w := by rw [Action.ask, hreact]
  rw [Action.bind_of_ok (Action.attempt_of_ok hask)]
  rfl

theorem respond_unowned (hnone : eventWay? r.layout w.current e = none) :
    r.respond steps e w = .ok (r, .ok none) w := by
  apply respond_ignored
  rw [eventWay?] at hnone
  unfold react
  cases hway : wayOf? r.layout w.current e.path with
  | none => rfl
  | some way =>
    rw [hway, Option.filter_eq_none_iff] at hnone
    have hreserved : reserved.contains (Text.lower (written way)) = true := by
      simpa using hnone way rfl
    simp only [hreserved, if_true]
    rfl

/-- The path of an event leads to one of the inputs of the banners, in whatever
letter case. -/
def NamesReserved (layout : Layout) (current : Location) (path : Text) : Prop :=
  ∃ n : Name, (eventPath layout path).location current = layout.source.location current ++ [n] ∧
    Text.lower n.text ∈ reserved

theorem eventWay_none (h : (∀ own, own ≠ [] →
      (eventPath layout e.path).location w.current ≠ layout.source.location w.current ++ own) ∨
      NamesReserved layout w.current e.path) : eventWay? layout w.current e = none := by
  cases hway : eventWay? layout w.current e with
  | none => rfl
  | some own =>
    obtain ⟨hown, hplain⟩ := eventWay_eq hway
    obtain ⟨hne, hlocation⟩ := wayOf_ok hown
    rcases h with h | ⟨n, hn, hreserved⟩
    · exact absurd hlocation (h own hne)
    · rw [hlocation, List.append_cancel_left_eq] at hn
      have hwritten : written own = n.text := by
        rw [hn]
        simp [written, Path.print, Anchor.text, Text.join, Segment.text]
      rw [hwritten] at hplain
      simp [hreserved] at hplain

/-- What an answer that is no build may do to a project: outside the output only
missing directories above it are made, the output itself stays if it is there,
and whatever differs belongs to the way of the event. -/
structure Confined (layout : Layout) (e : Event) (w w' : Workspace) : Prop where
  current : w'.current = w.current
  outside : ∀ l, ¬ layout.Inside w.current l → w'.tree.get? l = w.tree.get? l ∨
    w.tree.get? l = none ∧ w'.tree.get? l = some .directory ∧ layout.output.Outer w.current l
  output : w.tree.get? (layout.output.location w.current) ≠ none →
    w'.tree.get? (layout.output.location w.current) =
      w.tree.get? (layout.output.location w.current)
  owned : ∀ l, w'.tree.get? l ≠ w.tree.get? l → ∃ own, own ≠ [] ∧
    (eventPath layout e.path).location w.current = layout.source.location w.current ++ own ∧
    (Reached layout e own w.current l ∨
      w.tree.get? l = none ∧ w'.tree.get? l = some .directory ∧ Leading layout own w.current l)

theorem Reached.inside {current l : Location} (hown : own ≠ [])
    (h : Reached layout e own current l) :
    layout.Inside current l ∧ l ≠ layout.output.location current := by
  cases h with
  | below h =>
    rw [Asset.location_along] at h
    refine ⟨(List.prefix_append _ _).trans h, ?_⟩
    rintro rfl
    have hlength := h.length_le
    rw [List.length_append] at hlength
    exact hown (List.length_eq_zero_iff.mp (by omega))
  | module hkind hname htypes h =>
    subst h
    rw [Asset.location_along]
    exact ⟨List.prefix_append _ _, by simp⟩

theorem Confined.refl (layout : Layout) (e : Event) (w : Workspace) : Confined layout e w w :=
  ⟨rfl, fun _ _ => .inl rfl, fun _ => rfl, fun _ h => absurd rfl h⟩

theorem Confined.of_touches {w' : Workspace} (hway : eventWay? layout w.current e = some own)
    (h : w.Touches (Leading layout own) (Reached layout e own) w') :
    Confined layout e w w' := by
  obtain ⟨hown, hlocation⟩ := wayOf_ok (eventWay_eq hway).1
  refine ⟨h.current, fun l hl => ?_, fun hthere => ?_, fun l hl => ?_⟩
  · rcases h.entry l with he | he | ⟨hnone, hnew, hleading⟩
    · exact .inl he
    · exact absurd (he.inside hown).1 hl
    · exact .inr ⟨hnone, hnew, hleading.along.resolve_right hl⟩
  · rcases h.entry (layout.output.location w.current) with he | he | ⟨hnone, -, -⟩
    · exact he
    · exact absurd rfl (he.inside hown).2
    · exact absurd hnone hthere
  · refine ⟨own, hown, hlocation, ?_⟩
    rcases h.entry l with he | he | he
    · exact absurd he hl
    · exact .inl he
    · exact .inr he

end

/-- Whatever the text of an event is, and whether it is answered or fails: an
answer that is no build stays confined to the way of the event, and an event
outside the sources, about their root or about the inputs of the banners changes
nothing. -/
theorem respond_confined (steps : Steps) (r : Responder) (e : Event) (w : Workspace) :
    ((∀ source, react r.layout e w ≠ .ok (.rebuild source)) →
        Confined r.layout e w ((r.respond steps e).final w)) ∧
      ((∀ own, own ≠ [] → (eventPath r.layout e.path).location w.current ≠
          r.layout.source.location w.current ++ own) ∨
        NamesReserved r.layout w.current e.path →
        r.respond steps e w = .ok (r, .ok none) w) := by
  refine ⟨fun hno => ?_, fun h => respond_unowned (eventWay_none h)⟩
  rcases respond_final hno with hfinal | ⟨reaction, hreact, hfinal⟩
  · rw [hfinal]
    exact .refl _ _ _
  · rw [hfinal]
    rcases react_ok hreact with ⟨-, rfl⟩ | ⟨own, hway, hasks⟩
    · exact .refl _ _ _
    · exact .of_touches hway (perform_reached (wayOf_ok (eventWay_eq hway).1).1 hasks w)

/-- A spelling with backslashes and a step up makes the directory that it leads
to, and one of a banner's input makes nothing. -/
theorem sample_event_confined :
    let steps : Steps := ⟨pure {}, fun _ => pure {}, 2024⟩
    let r : Responder := ⟨Layout.choose none none, {}, []⟩
    let w : Workspace := { tree := Build.sampleTree }
    let e : Event := ⟨.addDir, "src\\client\\..\\client".toList⟩
    let e' : Event := ⟨.unlink, "src/client/../Header.LUA".toList⟩
    Confined r.layout e w ((r.respond steps e).final w) ∧
      ((r.respond steps e).final w).tree.get?
        [Layout.mediaName, Layout.luaName, Scope.client.name] = some .directory ∧
      r.respond steps e' w = .ok (r, .ok none) w := by
  intro steps r w e e'
  have hreact : react r.layout e w =
      .ok (.createDirectory (along r.layout.output [Scope.client.name])) := by
    decide +kernel
  refine ⟨(respond_confined steps r e w).1 ?_, by decide +kernel,
    (respond_confined steps r e' w).2 (.inr ?_)⟩
  · intro source h
    rw [hreact] at h
    cases h
  · exact ⟨⟨"Header.LUA".toList, by decide⟩, by decide +kernel, by decide +kernel⟩

end ModBuild.Watch
