import ModBuild.Proofs.Watch.Response

/-!
# What a removal takes away

An event of a removal takes away one file of the output, or one directory with
what is in it. Which one is known from its path alone, and it is not asked
whether something that is still in the sources belongs there.
-/

set_option autoImplicit false

namespace ModBuild.Watch

open Asset (along along_eq)

def moduleName (n : Name) : Name where
  text := n.text.take (n.text.length - Asset.typeScriptExtension.length) ++ ".lua".toList
  valid := by
    refine ⟨?_, ?_, ?_, ?_⟩
    · simp
    · intro h
      have := congrArg List.length h
      simp at this
    · intro h
      have := congrArg List.length h
      simp at this
    · rw [List.mem_append, not_or]
      exact ⟨fun h => n.valid.2.2.2 (List.mem_of_mem_take h), by decide⟩

def removedName? (n : Name) : Option Name :=
  if Text.endsWith Emission.declarationExtension (Text.lower n.text) then none
  else if Text.endsWith Asset.typeScriptExtension (Text.lower n.text) then some (moduleName n)
  else some n

def removedWay? (way : Location) : Option Location :=
  way.getLast?.bind fun n => (removedName? n).map fun m => way.dropLast ++ [m]

theorem targetOfRemoved_along (base : Path) {way : Location} (h : way ≠ []) :
    targetOfRemoved? (along base way) = (removedWay? way).map (along base) := by
  obtain ⟨dir, n, rfl⟩ := (List.eq_nil_or_concat' way).resolve_left h
  have hname : (along base (dir ++ [n])).name = n.text := by
    simp [along_eq, Path.name, Segment.text]
  have hwith (m : Name) : (along base (dir ++ [n])).withName m.text = along base (dir ++ [m]) := by
    have hm := Segment.ofText?_text (.name m)
    rw [Segment.text] at hm
    simp [along_eq, Path.withName, hm]
  rw [targetOfRemoved?, removedWay?, hname, List.getLast?_concat, List.dropLast_concat]
  dsimp only [Option.bind_some]
  unfold removedName?
  split
  · rfl
  · split
    · exact congrArg some (hwith (moduleName n))
    · rfl

def Strikes (layout : Layout) (current : Location) (e : Event) (way : Location) : Prop :=
  ∃ own, eventWay? layout current e = some own ∧
    (e.kind = .unlink ∧ removedWay? own = some way ∨
      e.kind = .unlinkDir ∧ own <+: way ∧ own ≠ way)

structure Shrinks (layout : Layout) (w w' : Workspace) : Prop where
  current : w'.current = w.current
  entry : ∀ l, w'.tree.get? l = w.tree.get? l ∨
    layout.Inside w.current l ∧ w'.tree.get? l = none

namespace Shrinks

variable {layout : Layout} {w w' w'' : Workspace}

theorem refl (layout : Layout) (w : Workspace) : Shrinks layout w w := ⟨rfl, fun _ => .inl rfl⟩

theorem trans (h : Shrinks layout w w') (h' : Shrinks layout w' w'') : Shrinks layout w w'' where
  current := h'.current.trans h.current
  entry l := by
    rcases h'.entry l with h₂ | ⟨hin, h₂⟩
    · rw [h₂]
      exact h.entry l
    · rw [h.current] at hin
      exact .inr ⟨hin, h₂⟩

theorem spares (h : Shrinks layout w w') : layout.Spares w w' where
  current := h.current
  file l hl := by
    rcases h.entry l with he | ⟨hin, -⟩
    · rw [Tree.file?, he]
      rfl
    · exact absurd hin hl
  entry l hl := by
    rcases h.entry l with he | ⟨hin, -⟩
    · exact he
    · exact absurd (.inl hin) hl

theorem stands (h : Shrinks layout w w') {p : Path} (hs : w'.Stands p) : w.Stands p := by
  apply hs.kept h.current.symm
  intro l hl
  rcases h.entry l with he | ⟨-, he⟩
  · rw [← he, hl]
  · rw [he] at hl
    cases hl

theorem file (h : Shrinks layout w w') (l : Location) :
    w'.tree.file? l = w.tree.file? l ∨ w'.tree.file? l = none := by
  rcases h.entry l with he | ⟨-, he⟩
  · exact .inl (by rw [Tree.file?, he]; rfl)
  · exact .inr (by rw [Tree.file?, he]; rfl)

end Shrinks

section

variable {steps : Steps} {layout : Layout} {r r' : Responder} {e : Event} {w w' : Workspace}
  {x : Option Run}

theorem respond_unlink (hlayout : r.layout = layout) (hk : e.kind = .unlink)
    (h : r.respond steps e w = .ok (r', .ok x) w') :
    r' = r ∧ ((w' = w ∧ ∀ own way, eventWay? layout w.current e = some own →
        removedWay? own = some way → w.isFile (along layout.output way) = .ok false) ∨
      ∃ own way, eventWay? layout w.current e = some own ∧ removedWay? own = some way ∧
        w.isFile (along layout.output way) = .ok true ∧ w'.current = w.current ∧
        ∀ m, w'.tree.get? m =
          if (along layout.output way).location w.current = m then none else w.tree.get? m) := by
  obtain ⟨reaction, hreact, hcarried⟩ := respond_ok h
  rw [hlayout] at hreact
  rcases react_ok hreact with ⟨hnone, rfl⟩ | ⟨own, hown, hasks⟩
  · obtain ⟨rfl, rfl⟩ := carried_ignore hcarried
    refine ⟨rfl, .inl ⟨rfl, ?_⟩⟩
    intro own way hown
    rw [hnone] at hown
    cases hown
  · have htarget := targetOfRemoved_along layout.output (wayOf_ok (eventWay_eq hown).1).1
    rw [hk] at hasks
    cases hasks with
    | write hwritten => simp at hwritten
    | kept hkept =>
      obtain ⟨rfl, rfl⟩ := carried_ignore hcarried
      refine ⟨rfl, .inl ⟨rfl, ?_⟩⟩
      intro own' way hown' hremoved
      rw [hown] at hown'
      cases hown'
      rw [hkept, hremoved] at htarget
      cases htarget
    | @removed p b hp hf =>
      rw [hp] at htarget
      obtain ⟨way, hremoved, rfl⟩ := Option.map_eq_some_iff.mp htarget.symm
      cases b with
      | false =>
        obtain ⟨rfl, rfl⟩ := carried_ignore hcarried
        refine ⟨rfl, .inl ⟨rfl, fun own' way' hown' hremoved' => ?_⟩⟩
        rw [hown] at hown'
        cases hown'
        rw [hremoved] at hremoved'
        cases hremoved'
        exact hf
      | true =>
        cases hcarried with
        | performed hno h =>
          obtain ⟨_, v, hremove, hlog⟩ := Action.bind_eq_ok.mp h
          obtain ⟨hcurrent, -, hget⟩ := Action.removeFile_entries hremove
          have hv := Action.log_eq_ok.mp hlog
          refine ⟨rfl, .inr ⟨own, way, hown, hremoved, hf, ?_, ?_⟩⟩
          · rw [hv]
            exact hcurrent
          · rw [hv]
            exact hget

theorem respond_unlinkDir (hlayout : r.layout = layout) (hk : e.kind = .unlinkDir)
    (h : r.respond steps e w = .ok (r', .ok x) w') :
    r' = r ∧ ((w' = w ∧ ∀ own, eventWay? layout w.current e = some own →
        w.isDirectory (along layout.output own) = .ok false) ∨
      ∃ own, eventWay? layout w.current e = some own ∧
        w.isDirectory (along layout.output own) = .ok true ∧ w'.current = w.current ∧
        ∀ m, w'.tree.get? m =
          if (along layout.output own).location w.current <+: m then none
          else w.tree.get? m) := by
  obtain ⟨reaction, hreact, hcarried⟩ := respond_ok h
  rw [hlayout] at hreact
  rcases react_ok hreact with ⟨hnone, rfl⟩ | ⟨own, hown, hasks⟩
  · obtain ⟨rfl, rfl⟩ := carried_ignore hcarried
    refine ⟨rfl, .inl ⟨rfl, ?_⟩⟩
    intro own hown
    rw [hnone] at hown
    cases hown
  · rw [hk] at hasks
    cases hasks with
    | write hwritten => simp at hwritten
    | @directoryRemoved b hd =>
      cases b with
      | false =>
        obtain ⟨rfl, rfl⟩ := carried_ignore hcarried
        refine ⟨rfl, .inl ⟨rfl, ?_⟩⟩
        intro own' hown'
        rw [hown] at hown'
        cases hown'
        exact hd
      | true =>
        cases hcarried with
        | performed hno h =>
          obtain ⟨_, v, hremove, hlog⟩ := Action.bind_eq_ok.mp h
          have hne : (along layout.output own).location w.current ≠ [] := by
            rw [Asset.location_along, Layout.output_location]
            simp
          obtain ⟨hcurrent, hget⟩ := Action.removeTree_entries hne hremove
          have hv := Action.log_eq_ok.mp hlog
          refine ⟨rfl, .inr ⟨own, hown, hd, ?_, ?_⟩⟩
          · rw [hv]
            exact hcurrent
          · rw [hv]
            exact hget

theorem respond_shrinks (hlayout : r.layout = layout)
    (hk : e.kind = .unlink ∨ e.kind = .unlinkDir)
    (h : r.respond steps e w = .ok (r', .ok x) w') : r' = r ∧ Shrinks layout w w' := by
  have hinside (way : Location) :=
    Layout.inside_along layout w.current way
  rcases hk with hk | hk
  · obtain ⟨rfl, ⟨rfl, -⟩ | ⟨own, way, -, -, -, hcurrent, hget⟩⟩ := respond_unlink hlayout hk h
    · exact ⟨rfl, .refl layout w'⟩
    · refine ⟨rfl, hcurrent, ?_⟩
      intro l
      by_cases hl : (along layout.output way).location w.current = l
      · exact .inr ⟨hl ▸ hinside way, by rw [hget, if_pos hl]⟩
      · exact .inl (by rw [hget, if_neg hl])
  · obtain ⟨rfl, ⟨rfl, -⟩ | ⟨own, -, -, hcurrent, hget⟩⟩ := respond_unlinkDir hlayout hk h
    · exact ⟨rfl, .refl layout w'⟩
    · refine ⟨rfl, hcurrent, ?_⟩
      intro l
      by_cases hl : (along layout.output own).location w.current <+: l
      · exact .inr ⟨(hinside own).trans hl, by rw [hget, if_pos hl]⟩
      · exact .inl (by rw [hget, if_neg hl])

theorem respond_spared (hlayout : r.layout = layout)
    (hk : e.kind = .unlink ∨ e.kind = .unlinkDir) {way : Location}
    (hno : ¬ Strikes layout w.current e way)
    (h : r.respond steps e w = .ok (r', .ok x) w') :
    w'.tree.file? ((along layout.output way).location w.current) =
      w.tree.file? ((along layout.output way).location w.current) := by
  rcases hk with hk | hk
  · obtain ⟨-, ⟨rfl, -⟩ | ⟨own, struck, hown, hremoved, -, -, hget⟩⟩ :=
      respond_unlink hlayout hk h
    · rfl
    · have hne : struck ≠ way := by
        rintro rfl
        exact hno ⟨own, hown, .inl ⟨hk, hremoved⟩⟩
      rw [Tree.file?, hget, if_neg]
      · rfl
      · rw [Asset.location_along, Asset.location_along, List.append_cancel_left_eq]
        exact hne
  · obtain ⟨-, ⟨rfl, -⟩ | ⟨own, hown, hdirectory, -, hget⟩⟩ := respond_unlinkDir hlayout hk h
    · rfl
    · rw [Tree.file?, hget]
      split
      · next hprefix =>
        rw [Asset.location_along, Asset.location_along, List.prefix_append_right_inj] at hprefix
        have hsame : own = way := by
          by_contra hne
          exact hno ⟨own, hown, .inr ⟨hk, hprefix, hne⟩⟩
        have hget := Workspace.Stands.directory hdirectory
        rw [Tree.file?, ← hsame, hget]
        rfl
      · rfl

theorem respond_struck (hs : w.Stands layout.root) (hlayout : r.layout = layout) {way : Location}
    (hnull : '\x00' ∉ (along layout.output way).print) (hstrikes : Strikes layout w.current e way)
    (h : r.respond steps e w = .ok (r', .ok x) w') :
    w'.tree.file? ((along layout.output way).location w.current) = none := by
  obtain ⟨own, hown, ⟨hk, hremoved⟩ | ⟨hk, ⟨rest, rfl⟩, hne⟩⟩ := hstrikes
  · obtain ⟨-, ⟨rfl, hno⟩ | ⟨own', struck, hown', hremoved', -, -, hget⟩⟩ :=
      respond_unlink hlayout hk h
    · have hf := hno own way hown hremoved
      rw [Layout.output_along] at hf hnull ⊢
      have hb := Workspace.isFile_along hs _ hnull hf
      rw [Asset.location_along]
      simpa using hb.symm
    · rw [hown] at hown'
      cases hown'
      rw [hremoved] at hremoved'
      cases hremoved'
      rw [Tree.file?, hget, if_pos rfl]
      rfl
  · have hrest : rest ≠ [] := fun he => hne (by simp [he])
    obtain ⟨-, ⟨rfl, hno⟩ | ⟨own', hown', -, -, hget⟩⟩ := respond_unlinkDir hlayout hk h
    · -- there was no directory, and so nothing below it
      have hd := hno own hown
      have hnull' := Asset.null_of_longer hnull
      rw [Layout.output_along] at hd hnull'
      have hb := Workspace.isDirectory_along hs _ hnull' hd
      rw [← Asset.location_along, ← Layout.output_along] at hb
      rw [← Asset.along_along, Asset.location_along, Tree.file?,
        Tree.get_below_none hrest (fun he => by simp [he] at hb)]
      rfl
    · rw [hown] at hown'
      cases hown'
      rw [Tree.file?, hget, if_pos]
      · rfl
      · rw [Asset.location_along, Asset.location_along, ← List.append_assoc]
        exact List.prefix_append _ _

end

end ModBuild.Watch
