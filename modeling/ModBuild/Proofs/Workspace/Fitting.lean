import ModBuild.Proofs.Layout

/-!
# Paths that the file system takes

A path without a null character, whose names and whose whole length are within
the limits, is never refused: every question about it has an answer, whatever
the tree holds.
-/

set_option autoImplicit false

namespace ModBuild

/-- A path that the file system takes: without a null character, and within the
limits for a name and for a path. -/
def Path.Fits (p : Path) : Prop :=
  '\x00' ∉ p.print ∧ Tree.byteLength p.print < Tree.pathLimit ∧
    ∀ s ∈ p.segments, Tree.byteLength s.text ≤ Tree.nameLimit

instance (p : Path) : Decidable p.Fits := by unfold Path.Fits; infer_instance

/-- A name that brings nothing into a path for which it would be refused. -/
def Name.Fits (n : Name) : Prop :=
  '\x00' ∉ n.text ∧ Tree.byteLength n.text ≤ Tree.nameLimit

instance (n : Name) : Decidable n.Fits := by unfold Name.Fits; infer_instance

namespace Tree

theorem reach_of_short {t : Tree} {l : Location} {ss : List Segment}
    (h : ∀ s ∈ ss, byteLength s.text ≤ nameLimit) : t.reach l ss ≠ .error .nameTooLong := by
  induction ss generalizing l with
  | nil => simp [reach_nil]
  | cons s ss ih =>
    have hrest : ∀ s ∈ ss, byteLength s.text ≤ nameLimit := fun s hs => h s (by simp [hs])
    rw [reach_cons]
    split
    · simp
    · simp
    · cases s with
      | up => exact ih hrest
      | name n =>
        have hn : ¬ nameLimit < byteLength n.text := Nat.not_lt.mpr (h (.name n) (by simp))
        simpa only [if_neg hn] using ih hrest

theorem reach_split {t : Tree} {l m : Location} {a b : List Segment}
    (h : t.reach l (a ++ b) = .ok m) :
    t.reach l a = .ok (Path.settle l a) ∧ t.reach (Path.settle l a) b = .ok m := by
  induction a generalizing l with
  | nil => exact ⟨reach_nil t l, h⟩
  | cons s a ih =>
    rw [List.cons_append, reach_cons] at h
    rw [reach_cons]
    split at h
    · cases h
    · cases h
    · cases s with
      | up => exact ih h
      | name n =>
        dsimp only at h ⊢
        split at h
        · cases h
        · next hn =>
          rw [if_neg hn]
          exact ih h

theorem short_of_reach {t : Tree} {l m : Location} {ss : List Segment}
    (h : t.reach l ss = .ok m) : ∀ s ∈ ss, byteLength s.text ≤ nameLimit := by
  induction ss generalizing l with
  | nil => simp
  | cons s ss ih =>
    rw [reach_cons] at h
    split at h
    · cases h
    · cases h
    · cases s with
      | up =>
        intro s hs
        rcases List.mem_cons.mp hs with rfl | hs
        · decide
        · exact ih h s hs
      | name n =>
        dsimp only at h
        split at h
        · cases h
        · next hn =>
          intro s hs
          rcases List.mem_cons.mp hs with rfl | hs
          · exact Nat.not_lt.mp hn
          · exact ih h s hs

theorem byteLength_append (a b : Text) : byteLength (a ++ b) = byteLength a + byteLength b := by
  have hfrom (t : Text) (n : Nat) :
      t.foldl (fun n c => n + c.utf8Size) n = n + byteLength t := by
    induction t generalizing n with
    | nil => rfl
    | cons c t ih =>
      rw [byteLength, List.foldl_cons, List.foldl_cons, ih, ih (0 + c.utf8Size)]
      omega
  rw [byteLength, List.foldl_append, hfrom b]
  rfl

theorem byteLength_pos {t : Text} (h : t ≠ []) : 0 < byteLength t := by
  obtain ⟨c, t, rfl⟩ := List.exists_cons_of_ne_nil h
  rw [← List.singleton_append, byteLength_append]
  have hc : byteLength [c] = c.utf8Size := Nat.zero_add _
  have := c.utf8Size_pos
  omega

theorem byteLength_join_le (sep : Text) (a b : List Text) :
    byteLength (Text.join sep a) ≤ byteLength (Text.join sep (a ++ b)) := by
  induction a with
  | nil => exact Nat.zero_le _
  | cons p a ih =>
    cases a with
    | nil =>
      cases b with
      | nil => exact Nat.le_refl _
      | cons q b =>
        rw [List.singleton_append, Text.join, Text.join, List.intercalate_cons_cons,
          List.intercalate_singleton, List.append_assoc, byteLength_append]
        exact Nat.le_add_right _ _
    | cons q a =>
      rw [List.cons_append, List.cons_append, Text.join, Text.join, List.intercalate_cons_cons,
        List.intercalate_cons_cons, byteLength_append, byteLength_append (p ++ sep)]
      exact Nat.add_le_add_left ih _

end Tree

theorem Path.print_ne_nil (p : Path) : p.print ≠ [] := by
  intro h
  have hp := parse_print p
  rw [h] at hp
  rw [← hp] at h
  exact absurd h (by decide)

theorem Asset.byteLength_along_le (base : Path) (a b : Location) :
    Tree.byteLength (along base a).print ≤ Tree.byteLength (along base (a ++ b)).print := by
  rw [along_eq, along_eq, List.map_append, ← List.append_assoc]
  generalize base.segments ++ a.map .name = ss
  by_cases hnone : base.anchor = .relative ∧ ss = []
  · have hdot : Path.print ⟨base.anchor, ss⟩ = ['.'] := if_pos hnone
    rw [hdot]
    exact Tree.byteLength_pos (Path.print_ne_nil _)
  · have hmore : ¬ (base.anchor = .relative ∧ ss ++ b.map .name = []) :=
      fun h => hnone ⟨h.1, (List.append_eq_nil_iff.mp h.2).1⟩
    rw [Path.print, Path.print, if_neg hnone, if_neg hmore, Tree.byteLength_append,
      Tree.byteLength_append, List.map_append]
    exact Nat.add_le_add_left (Tree.byteLength_join_le _ _ _) _

theorem Path.Fits.outer {base : Path} {a b : Location} (h : (Asset.along base (a ++ b)).Fits) :
    (Asset.along base a).Fits := by
  obtain ⟨hnull, hlength, hshort⟩ := h
  refine ⟨Asset.null_of_longer hnull, ?_, fun s hs => hshort s ?_⟩
  · exact Nat.lt_of_le_of_lt (Asset.byteLength_along_le base a b) hlength
  · rw [Asset.along_eq] at hs ⊢
    rw [List.map_append, ← List.append_assoc]
    exact List.mem_append_left _ hs

namespace Workspace

variable {w : Workspace} {p base : Path}

theorem fits_of_resolve {l : Location} (h : w.resolve p = .ok l) : p.Fits := by
  obtain ⟨hnull, hr, -⟩ := resolve_ok h
  rw [Tree.resolve] at hr
  split at hr
  · cases hr
  · next hlength => exact ⟨hnull, Nat.not_le.mp hlength, Tree.short_of_reach hr⟩

theorem resolve_outer {way l : Location} (h : w.resolve (Asset.along base way) = .ok l) :
    w.resolve base = .ok (base.location w.current) := by
  have hfits : base.Fits := by
    have hway : (Asset.along base ([] ++ way)).Fits := fits_of_resolve h
    simpa [Asset.along_nil] using hway.outer
  obtain ⟨-, hr, -⟩ := resolve_ok h
  rw [Tree.resolve] at hr
  split at hr
  · cases hr
  · rw [Asset.isAbsolute_along, Asset.segments_along] at hr
    have hsplit : w.tree.reach (if base.isAbsolute then [] else w.current) base.segments =
        .ok (base.location w.current) := (Tree.reach_split hr).1
    rw [Workspace.resolve, if_neg hfits.1, Tree.resolve, if_neg (Nat.not_le.mpr hfits.2.1), hsplit]

theorem stands_of_child {way l : Location} (hway : way ≠ [])
    (h : w.resolve (Asset.along base way) = .ok l) (hl : w.tree.get? l ≠ none) :
    w.Stands base := by
  obtain ⟨-, -, rfl⟩ := resolve_ok h
  rw [Asset.location_along] at hl
  exact .of_resolve (resolve_outer h) (Tree.get_on_way hway hl)

theorem Stands.outer {way : Location} (h : w.Stands (Asset.along base way)) : w.Stands base := by
  by_cases hway : way = []
  · rwa [hway, Asset.along_nil] at h
  · exact stands_of_child hway h.resolve (by simp [h.directory])

theorem resolve_of_fits (h : p.Fits) :
    w.resolve p ≠ .error .nullCharacter ∧ w.resolve p ≠ .error (.fault .nameTooLong) := by
  obtain ⟨hnull, hlength, hshort⟩ := h
  have hreach := Tree.reach_of_short (t := w.tree)
    (l := if p.isAbsolute then [] else w.current) hshort
  rw [resolve, if_neg hnull, Tree.resolve, if_neg (Nat.not_le.mpr hlength)]
  generalize w.tree.reach _ p.segments = r at hreach
  cases r with
  | ok l => simp
  | error f => simpa using fun e : f = .nameTooLong => hreach (by rw [e])

theorem entry_of_fits (h : p.Fits) : ∃ e, w.entry? p = .ok e := by
  unfold entry?
  split
  · exact ⟨_, rfl⟩
  · next hr => exact absurd hr (resolve_of_fits h).2
  · exact ⟨none, rfl⟩

theorem isDirectory_of_fits (h : p.Fits) : ∃ b, w.isDirectory p = .ok b := by
  obtain ⟨e, he⟩ := entry_of_fits (w := w) h
  rw [isDirectory, he]
  exact ⟨_, rfl⟩

theorem below_of_fits (h : p.Fits) : ∃ l, w.below p = .ok l := by
  obtain ⟨b, hb⟩ := isDirectory_of_fits (w := w) h
  rw [below, hb]
  cases b with
  | false => exact ⟨[], rfl⟩
  | true =>
    have hs : w.Stands p := hb
    simp only [bind, Except.bind, hs.resolve]
    exact ⟨_, rfl⟩

theorem filesBelow_of_fits (h : p.Fits) : ∃ ways, w.filesBelow p = .ok ways := by
  obtain ⟨l, hl⟩ := below_of_fits (w := w) h
  rw [filesBelow, hl]
  exact ⟨_, rfl⟩

theorem entry_of_below {l : Entries} (h : w.below p = .ok l) : ∃ e, w.entry? p = .ok e := by
  rw [below] at h
  cases hd : w.isDirectory p with
  | error f => rw [hd] at h; cases h
  | ok b =>
    obtain ⟨e, he, -⟩ := entry_of_isDirectory hd
    exact ⟨e, he⟩

theorem entry_of_filesBelow {ways : List Location} (h : w.filesBelow p = .ok ways) :
    ∃ e, w.entry? p = .ok e := by
  rw [filesBelow] at h
  cases hb : w.below p with
  | error f => rw [hb] at h; cases h
  | ok l => exact entry_of_below hb

theorem fits_of_entry {way : Location} (hs : w.Stands base) (hway : ∀ n ∈ way, n.Fits)
    {e : Option Entry} (h : w.entry? (Asset.along base way) = .ok e) :
    (Asset.along base way).Fits := by
  have hnull : '\x00' ∉ (Asset.along base way).print :=
    Asset.null_along (resolve_ok hs.resolve).1 fun n hn => (hway n hn).1
  refine ⟨hnull, ?_, ?_⟩
  · by_contra hlong
    have hr : w.resolve (Asset.along base way) = .error (.fault .nameTooLong) := by
      rw [resolve, if_neg hnull, Tree.resolve, if_pos (Nat.not_lt.mp hlong)]
    unfold entry? at h
    rw [hr] at h
    cases h
  · intro s hmem
    rw [Asset.along_eq, List.mem_append] at hmem
    rcases hmem with hmem | hmem
    · exact (fits_of_resolve hs.resolve).2.2 s hmem
    · obtain ⟨n, hn, rfl⟩ := List.mem_map.mp hmem
      exact (hway n hn).2

theorem entry_again {w' : Workspace} {way : Location} (hs : w.Stands base) (hs' : w'.Stands base)
    (hway : ∀ n ∈ way, n.Fits) {e : Option Entry} (h : w.entry? (Asset.along base way) = .ok e) :
    w'.entry? (Asset.along base way) =
      .ok (w'.tree.get? (base.location w'.current ++ way)) := by
  have hfits := fits_of_entry hs hway h
  obtain ⟨e', he'⟩ := entry_of_fits (w := w') hfits
  rw [he', entry_along hs' way hfits.1 he']

theorem entry_refused {f : Failure} (h : w.entry? p = .error f) : f = .fault .nameTooLong := by
  unfold entry? at h
  split at h
  · cases h
  · cases h
    rfl
  · cases h

theorem isDirectory_refused {f : Failure} (h : w.isDirectory p = .error f) :
    f = .fault .nameTooLong := by
  rw [isDirectory] at h
  cases he : w.entry? p with
  | error f' =>
    rw [he] at h
    cases h
    exact entry_refused he
  | ok e => rw [he] at h; cases h

end Workspace

end ModBuild
