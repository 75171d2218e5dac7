import ModBuild.Proofs.Workspace.Effect

/-!
# Paths below a directory that stands

Below a directory that can be reached, names lead where they say, so every
question about such a path is answered by what stands at its location. Making
directories there adds the missing ones on the way and nothing else.
-/

set_option autoImplicit false

namespace ModBuild

open Asset (along)

theorem Asset.along_nil (base : Path) : along base [] = base := by
  simp [along, Path.append, Path.isAbsolute]

theorem Asset.along_eq (base : Path) (way : Location) :
    along base way = ⟨base.anchor, base.segments ++ way.map .name⟩ := by
  simp [along, Path.append, Path.isAbsolute]

theorem Asset.isAbsolute_along (base : Path) (way : Location) :
    (along base way).isAbsolute = base.isAbsolute := by
  rw [along_eq]
  rfl

theorem Asset.segments_along (base : Path) (way : Location) :
    (along base way).segments = base.segments ++ way.map .name := by
  rw [along_eq]

theorem Asset.along_along (base : Path) (a b : Location) :
    along (along base a) b = along base (a ++ b) := by
  simp [along_eq]

theorem Asset.location_along (cwd : Location) (base : Path) (way : Location) :
    (along base way).location cwd = base.location cwd ++ way := by
  rw [along_eq, Path.location, Path.settle_append, Path.settle_names]
  rfl

theorem Asset.way_of_location {cwd : Location} {base : Path} {a b : Location}
    (h : (along base a).location cwd = (along base b).location cwd) : a = b := by
  rwa [location_along, location_along, List.append_cancel_left_eq] at h

theorem Asset.parent_along (base : Path) (way : Location) (h : way ≠ []) :
    (along base way).parent = along base way.dropLast := by
  have hm : way.map Segment.name ≠ [] := by simpa using h
  rw [along_eq, along_eq, Path.parent, List.dropLast_append_of_ne_nil hm, List.map_dropLast]

theorem Asset.div_name (base : Path) (n : Name) : base / n.text = along base [n] := by
  have h := Path.parse_print ⟨.relative, [.name n]⟩
  have hp : Path.print ⟨.relative, [.name n]⟩ = n.text := by
    simp [Path.print, Anchor.text, Text.join, Segment.text]
  rw [hp] at h
  show base.append (Path.parse n.text) = _
  rw [h]
  rfl

namespace Workspace

open Asset (location_along along_eq isAbsolute_along segments_along)

variable {w : Workspace} {base : Path}

theorem onTree_ok {w w' : Workspace} {p : Path} {change : Tree → Location → Except Fault Tree}
    (h : w.onTree p change = .ok w') :
    ∃ l t, w.resolve p = .ok l ∧ l = p.location w.current ∧ change w.tree l = .ok t ∧
      w' = { w with tree := t } := by
  rw [onTree] at h
  cases hr : w.resolve p with
  | error f => rw [hr] at h; cases h
  | ok l =>
    rw [hr] at h
    cases hc : change w.tree l with
    | error f => simp [bind, Except.bind, hc, throw, throwThe, MonadExceptOf.throw] at h
    | ok t =>
      simp only [bind, Except.bind, hc] at h
      exact ⟨l, t, rfl, (resolve_ok hr).2.2, hc, (Except.ok.inj h).symm⟩

theorem resolve_along (hs : w.Stands base) (way : Location) :
    w.resolve (along base way) = .ok (base.location w.current ++ way) ∨
      w.resolve (along base way) = .error .nullCharacter ∨
      w.resolve (along base way) = .error (.fault .nameTooLong) ∨
      (∃ f, w.resolve (along base way) = .error (.fault f)) ∧
        w.tree.get? (base.location w.current ++ way) = none := by
  unfold resolve Tree.resolve
  have hreach := Tree.reach_append (way.map .name) hs.reach
  rw [isAbsolute_along, segments_along, hreach]
  split
  · exact .inr (.inl rfl)
  · split
    · next l hl =>
      split at hl
      · cases hl
      · have hp := Tree.reach_eq_settle hl
        rw [Path.settle_names] at hp
        exact .inl (by rw [hp])
    · next f hf =>
      split at hf
      · cases hf
        exact .inr (.inr (.inl rfl))
      · rcases Tree.reach_names w.tree (base.location w.current) way with h | h | ⟨⟨g, h⟩, hn⟩
        · rw [hf] at h; cases h
        · rw [hf] at h; cases h
          exact .inr (.inr (.inl rfl))
        · exact .inr (.inr (.inr ⟨⟨f, rfl⟩, hn⟩))

theorem resolve_along_of_get {w' : Workspace} {way l : Location} (hs : w.Stands base)
    (hs' : w'.Stands base) (hc : w'.current = w.current)
    (hget : w.tree.get? (base.location w.current ++ way) ≠ none)
    (h : w'.resolve (along base way) = .ok l) : w.resolve (along base way) = .ok l := by
  obtain ⟨hn, hr, -⟩ := resolve_ok h
  rw [Tree.resolve] at hr
  split at hr
  · cases hr
  · next hlen =>
    rw [isAbsolute_along, segments_along, Tree.reach_append (way.map .name) hs'.reach, hc] at hr
    have hreach := Tree.reach_names_of_get hr hget
    rw [resolve, if_neg hn, Tree.resolve, if_neg hlen, isAbsolute_along, segments_along,
      Tree.reach_append (way.map .name) hs.reach, hreach]

theorem isFile_along_of_file {w' : Workspace} {way : Location} (hs : w.Stands base)
    (hs' : w'.Stands base) (hc : w'.current = w.current)
    (hfile : w.tree.file? (base.location w.current ++ way) =
      w'.tree.file? (base.location w.current ++ way))
    (h : w'.isFile (along base way) = .ok true) : w.isFile (along base way) = .ok true := by
  obtain ⟨hr, bytes, hget⟩ := file_of_isFile h
  rw [location_along, hc] at hr hget
  rw [← Tree.file_eq_some, ← hfile, Tree.file_eq_some] at hget
  have hresolve := resolve_along_of_get hs hs' hc (by simp [hget]) hr
  rw [isFile, entry?, hresolve]
  simp only [hget]
  rfl

theorem entry_along (hs : w.Stands base) (way : Location) {e : Option Entry}
    (hn : '\x00' ∉ (along base way).print) (h : w.entry? (along base way) = .ok e) :
    e = w.tree.get? (base.location w.current ++ way) := by
  unfold entry? at h
  rcases resolve_along hs way with hr | hr | hr | ⟨⟨f, hr⟩, hnone⟩
  · rw [hr] at h
    exact (Except.ok.inj h).symm
  · unfold resolve at hr
    rw [if_neg hn] at hr
    split at hr <;> cases hr
  · rw [hr] at h; cases h
  · rw [hr] at h
    rw [hnone]
    cases f <;> cases h <;> rfl

theorem isFile_along (hs : w.Stands base) (way : Location) {b : Bool}
    (hn : '\x00' ∉ (along base way).print) (h : w.isFile (along base way) = .ok b) :
    b = (w.tree.file? (base.location w.current ++ way)).isSome := by
  obtain ⟨e, he, hb⟩ := entry_of_isFile h
  have hget := entry_along hs way hn he
  rw [Bool.eq_iff_iff, hb, Tree.file?, ← hget]
  rcases e with _ | _ | bytes <;> simp [Entry.bytes?]

theorem isDirectory_along (hs : w.Stands base) (way : Location) {b : Bool}
    (hn : '\x00' ∉ (along base way).print) (h : w.isDirectory (along base way) = .ok b) :
    b = true ↔ w.tree.get? (base.location w.current ++ way) = some .directory := by
  obtain ⟨e, he, hb⟩ := entry_of_isDirectory h
  rw [hb, entry_along hs way hn he]

theorem below_along (hs : w.Stands base) (way : Location) {l : Entries}
    (hn : '\x00' ∉ (along base way).print) (h : w.below (along base way) = .ok l) :
    l = w.tree.below (base.location w.current ++ way) := by
  rw [below] at h
  cases hd : w.isDirectory (along base way) with
  | error f => rw [hd] at h; cases h
  | ok b =>
    rw [hd] at h
    cases b with
    | true =>
      obtain ⟨e, he, hb⟩ := entry_of_isDirectory hd
      rw [hb.mp rfl] at he
      have hr := (resolve_of_entry he).1
      simp only [bind, Except.bind, hr] at h
      rw [location_along] at h
      exact (Except.ok.inj h).symm
    | false =>
      cases h
      have hno : w.tree.get? (base.location w.current ++ way) ≠ some .directory := by
        intro hg
        exact absurd ((isDirectory_along hs way hn hd).mpr hg) (by simp)
      rw [eq_comm, List.eq_nil_iff_forall_not_mem]
      rintro ⟨more, e⟩ hm
      rw [Tree.mem_below_iff, Tree.get_below_none hm.1 hno] at hm
      cases hm.2

theorem filesBelow_along (hs : w.Stands base) (way : Location) {ways : List Location}
    (hn : '\x00' ∉ (along base way).print) (h : w.filesBelow (along base way) = .ok ways) :
    ways = w.tree.filesBelow (base.location w.current ++ way) := by
  rw [filesBelow] at h
  cases hb : w.below (along base way) with
  | error f => rw [hb] at h; cases h
  | ok l =>
    rw [hb] at h
    rw [Tree.filesBelow, ← below_along hs way hn hb]
    have hw := Except.ok.inj h
    rw [← hw]
    apply List.filterMap_congr
    rintro ⟨m, e⟩ -
    cases e <;> rfl

theorem readBytes_ok {w : Workspace} {p : Path} {b : ByteArray} (h : w.readBytes p = .ok b) :
    w.resolve p = .ok (p.location w.current) ∧
      w.tree.file? (p.location w.current) = some b := by
  unfold readBytes at h
  cases hr : w.resolve p with
  | error f => rw [hr] at h; cases h
  | ok l =>
    obtain ⟨-, -, rfl⟩ := resolve_ok hr
    rw [hr] at h
    simp only [bind, Except.bind] at h
    split at h
    · next hg =>
      cases h
      exact ⟨rfl, (Tree.file_eq_some _ _ _).mpr hg⟩
    · cases h
    · cases h

theorem readText_ok {w : Workspace} {p : Path} {s : Text} (h : w.readText p = .ok s) :
    ∃ b t, w.readBytes p = .ok b ∧ Text.decode? b = some t ∧ s = Text.unifyBreaks t := by
  unfold readText at h
  cases hb : w.readBytes p with
  | error f => rw [hb] at h; cases h
  | ok b =>
    rw [hb] at h
    simp only [bind, Except.bind] at h
    split at h
    · next t ht =>
      cases h
      exact ⟨b, t, rfl, ht, rfl⟩
    · cases h

theorem readBytes_of_file {w : Workspace} {p : Path} {l : Location} {b : ByteArray}
    (hr : w.resolve p = .ok l) (hf : w.tree.file? l = some b) : w.readBytes p = .ok b := by
  unfold readBytes
  rw [hr]
  simp only [bind, Except.bind, (w.tree.file_eq_some l b).mp hf]
  rfl

theorem readText_of_bytes {w : Workspace} {p : Path} {b : ByteArray} {t : Text}
    (hb : w.readBytes p = .ok b) (ht : Text.decode? b = some t) :
    w.readText p = .ok (Text.unifyBreaks t) := by
  unfold readText
  rw [hb]
  simp only [bind, Except.bind, ht]
  rfl

theorem readBytes_kept {w w' : Workspace} {p : Path} {b : ByteArray}
    (hc : w'.current = w.current)
    (hk : ∀ l, w.tree.get? l = some .directory → w'.tree.get? l = some .directory)
    (hf : w'.tree.file? (p.location w.current) = w.tree.file? (p.location w.current))
    (h : w.readBytes p = .ok b) : w'.readBytes p = .ok b := by
  obtain ⟨hr, hfile⟩ := readBytes_ok h
  exact readBytes_of_file (resolve_kept hc hk hr) (hf.trans hfile)

theorem readText_kept {w w' : Workspace} {p : Path} {s : Text} (hc : w'.current = w.current)
    (hk : ∀ l, w.tree.get? l = some .directory → w'.tree.get? l = some .directory)
    (hf : w'.tree.file? (p.location w.current) = w.tree.file? (p.location w.current))
    (h : w.readText p = .ok s) : w'.readText p = .ok s := by
  obtain ⟨b, t, hb, ht, rfl⟩ := readText_ok h
  exact readText_of_bytes (readBytes_kept hc hk hf hb) ht

end Workspace

namespace Action

variable {w : Workspace} {base : Path}

def OnWay (start way l : Location) : Prop := ∃ a, a ≠ [] ∧ a <+: way ∧ l = start ++ a

theorem makeDirectory_ok {w w' : Workspace} {p : Path} {u : Unit}
    (h : makeDirectory p w = .ok u w') :
    w.tree.get? (p.location w.current) = none ∧
      w.Leads (fun l => l = p.location w.current) [] w' := by
  rw [makeDirectory, change_eq_ok] at h
  obtain ⟨l, t, -, rfl, ht, rfl⟩ := Workspace.onTree_ok h
  obtain ⟨hnone, hget⟩ := Tree.makeDirectory_ok ht
  have hfile : ∀ m, t.file? m = w.tree.file? m := by
    intro m
    rw [Tree.file_update hget]
    split
    · next hm => rw [Tree.file?, ← hm, hnone]; rfl
    · rfl
  refine ⟨hnone, rfl, hfile, ?_, ?_⟩
  · intro m hm
    show t.get? m = _
    rw [hget, hm]
    simp
  · intro m hm
    change t.get? m = _ at hm
    rw [hget] at hm
    split at hm
    · next e => exact .inr e.symm
    · exact .inl hm

theorem writeBytes_ok {w w' : Workspace} {p : Path} {b : ByteArray} {u : Unit}
    {D : Location → Prop} (h : writeBytes p b w = .ok u w') :
    w.resolve p = .ok (p.location w.current) ∧
      w.Leads D [(p.location w.current, some b)] w' := by
  rw [writeBytes, change_eq_ok] at h
  obtain ⟨l, t, hr, rfl, ht, rfl⟩ := Workspace.onTree_ok h
  obtain ⟨hno, hget⟩ := Tree.writeFile_ok ht
  refine ⟨hr, rfl, Tree.file_update hget, ?_, ?_⟩
  · intro m hm
    show t.get? m = _
    rw [hget, hm, if_neg]
    intro e
    exact hno (e ▸ hm)
  · intro m hm
    change t.get? m = _ at hm
    rw [hget] at hm
    split at hm
    · cases hm
    · exact .inl hm

theorem removeFile_entries {w w' : Workspace} {p : Path} {u : Unit}
    (h : removeFile p w = .ok u w') :
    w'.current = w.current ∧ w.tree.file? (p.location w.current) ≠ none ∧
      ∀ m, w'.tree.get? m = if p.location w.current = m then none else w.tree.get? m := by
  rw [removeFile, change_eq_ok] at h
  obtain ⟨l, t, -, rfl, ht, rfl⟩ := Workspace.onTree_ok h
  exact ⟨rfl, Tree.removeFile_ok ht⟩

theorem removeTree_entries {w w' : Workspace} {p : Path} {u : Unit}
    (hp : p.location w.current ≠ []) (h : removeTree p w = .ok u w') :
    w'.current = w.current ∧
      ∀ m, w'.tree.get? m = if p.location w.current <+: m then none else w.tree.get? m := by
  rw [removeTree, change_eq_ok] at h
  obtain ⟨l, t, -, rfl, ht, rfl⟩ := Workspace.onTree_ok h
  cases ht
  exact ⟨rfl, fun m => Tree.get?_prune _ _ m hp⟩

theorem removeFile_ok {w w' : Workspace} {p : Path} {u : Unit} {D : Location → Prop}
    (h : removeFile p w = .ok u w') : w.Leads D [(p.location w.current, none)] w' := by
  obtain ⟨hcurrent, hfile, hget⟩ := removeFile_entries h
  refine ⟨hcurrent, Tree.file_update hget, ?_, ?_⟩
  · intro m hm
    rw [hget, hm, if_neg]
    intro he
    rw [he, Tree.file?, hm] at hfile
    exact hfile rfl
  · intro m hm
    rw [hget] at hm
    split at hm
    · cases hm
    · exact .inl hm

theorem removeFileIfAny_there {w : Workspace} {p : Path} {l : Location} {b : ByteArray}
    (hr : w.resolve p = .ok l) (hf : w.tree.file? l = some b) :
    removeFileIfAny p w = removeFile p w := by
  have hg := (w.tree.file_eq_some l b).mp hf
  have hremove : w.removeFile p = .ok { w with tree := w.tree.prune l } := by
    unfold Workspace.removeFile Workspace.onTree
    rw [hr]
    simp [bind, Except.bind, Tree.removeFile, hg, pure, Except.pure]
  rw [removeFileIfAny, removeFile, change, change, Workspace.removeFileIfAny, hremove]

theorem makeDirectory_error {w w' : Workspace} {p : Path} {e : Failure}
    (h : makeDirectory p w = .error e w') : w' = w := by
  rw [makeDirectory, change_eq_error] at h
  exact h.2.symm

theorem makeDirectory_standing (hs : w.Stands base) :
    makeDirectory base w = .error (.fault .alreadyExists) w := by
  have hd := hs.directory
  rw [makeDirectory, change_eq_error]
  refine ⟨?_, rfl⟩
  unfold Workspace.makeDirectory Workspace.onTree
  rw [hs.resolve]
  simp [bind, Except.bind, Tree.makeDirectory, hd, throw, throwThe, MonadExceptOf.throw]

theorem forgive_final (p : Path) (e : Failure) (w : Workspace) : (forgive p e).final w = w := by
  unfold forgive
  split
  · rfl
  · cases h : isDirectory p w with
    | ok b w₁ =>
      obtain ⟨-, rfl⟩ := ask_eq_ok.mp h
      rw [final, bind_of_ok h]
      cases b <;> rfl
    | error e w₁ =>
      have hw : (isDirectory p).final w = w := ask_final (·.isDirectory p) w
      rw [final_of_error h] at hw
      rw [final, bind_of_error h, hw]
  · rfl

theorem makeOne_leads (p : Path) (w : Workspace) :
    w.Leads (fun l => l = p.location w.current) [] ((makeOne p).final w) := by
  unfold makeOne
  cases h : makeDirectory p w with
  | ok u w₁ =>
    rw [final, bind_of_ok (attempt_of_ok h)]
    exact (makeDirectory_ok h).2
  | error e w₁ =>
    have hw := makeDirectory_error h
    subst hw
    rw [final, bind_of_ok (attempt_of_error h)]
    have hf := forgive_final p e w₁
    rw [final] at hf
    rw [hf]
    exact .refl _ _

theorem forgive_standing (hs : w.Stands base) :
    forgive base (.fault .alreadyExists) w = .ok () w := by
  have hdirectory : isDirectory base w = .ok true w := ask_eq_ok.mpr ⟨hs, rfl⟩
  exact bind_eq_ok.mpr ⟨true, w, hdirectory, rfl⟩

theorem makeDirectories_standing (hs : w.Stands base) : makeDirectories base w = .ok () w := by
  have hforgive := forgive_standing hs
  have hattempt := attempt_of_error (makeDirectory_standing hs)
  unfold makeDirectories
  cases h : base.segments.reverse with
  | nil =>
    have hb : (⟨base.anchor, []⟩ : Path) = base := by
      rw [List.reverse_eq_nil_iff] at h
      rw [← h]
    rwa [makeDirectoriesFrom, hb, makeOne, bind_of_ok hattempt]
  | cons s outer =>
    have hb : (⟨base.anchor, (s :: outer).reverse⟩ : Path) = base := by
      rw [← h, List.reverse_reverse]
    rwa [makeDirectoriesFrom, hb, bind_of_ok hattempt]

theorem OnWay.append {start way l : Location} (h : OnWay start way l) (more : Location) :
    OnWay start (way ++ more) l := by
  obtain ⟨a, ha, hp, rfl⟩ := h
  exact ⟨a, ha, hp.trans (List.prefix_append way more), rfl⟩

theorem onWay_end (start way : Location) (h : way ≠ []) : OnWay start way (start ++ way) :=
  ⟨way, h, List.prefix_refl way, rfl⟩

theorem makeDirectoriesFrom_leads {D : Location → Prop} {p : Path} (anchor : Anchor) (s : Segment)
    (outer : List Segment) (hp : ⟨anchor, (s :: outer).reverse⟩ = p)
    (hend : D (p.location w.current))
    (houter : w.Leads D [] ((makeDirectoriesFrom anchor outer).final w)) :
    w.Leads D [] ((makeDirectoriesFrom anchor (s :: outer)).final w) := by
  have hmake (v : Workspace) (hv : v.current = w.current) (l : Location)
      (hl : l = p.location v.current) : D l := by
    rw [hl, hv]
    exact hend
  rw [makeDirectoriesFrom, hp]
  cases hd : makeDirectory p w with
  | ok u w₁ =>
    rw [final, bind_of_ok (attempt_of_ok hd)]
    exact (makeDirectory_ok hd).2.mono (hmake w rfl)
  | error e w₁ =>
    have hw := makeDirectory_error hd
    subst hw
    rw [final, bind_of_ok (attempt_of_error hd)]
    by_cases he : e = .fault .notFound
    · subst he
      apply houter.bind
      intro u v hv
      exact (makeOne_leads p v).mono (hmake v hv)
    · have hf := forgive_final p e w₁
      rw [final] at hf
      cases e with
      | fault f =>
        cases f with
        | notFound => exact absurd rfl he
        | _ => rw [hf]; exact .refl _ _
      | _ => rw [hf]; exact .refl _ _

theorem makeDirectories_leads (hs : w.Stands base) (way : Location) :
    w.Leads (OnWay (base.location w.current) way) []
      ((makeDirectories (along base way)).final w) := by
  induction way using List.reverseRecOn with
  | nil =>
    rw [Asset.along_nil, final_of_ok (makeDirectories_standing hs)]
    exact .refl _ _
  | append_singleton way n ih =>
    have hrev : (along base (way ++ [n])).segments.reverse =
        .name n :: (along base way).segments.reverse := by
      simp [Asset.along_eq]
    have hanchor : (along base (way ++ [n])).anchor = (along base way).anchor := by
      simp [Asset.along_eq]
    have hpath : (⟨(along base way).anchor,
        (.name n :: (along base way).segments.reverse).reverse⟩ : Path) =
          along base (way ++ [n]) := by
      simp [Asset.along_eq]
    have hend : OnWay (base.location w.current) (way ++ [n])
        ((along base (way ++ [n])).location w.current) := by
      rw [Asset.location_along]
      exact onWay_end _ _ (by simp)
    rw [makeDirectories, hrev, hanchor]
    apply makeDirectoriesFrom_leads _ _ _ hpath hend
    exact ih.mono fun l hl => hl.append [n]

end Action

end ModBuild
