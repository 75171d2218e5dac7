import ModBuild.Proofs.Workspace.Fitting

/-!
# Directories that are made

Making a directory succeeds exactly when nothing on the way to it is a file, and
then it is there.
-/

set_option autoImplicit false

namespace ModBuild

theorem Tree.reach_clear {t : Tree} {l way : Location}
    (hshort : ∀ n ∈ way, byteLength n.text ≤ nameLimit)
    (hclear : ∀ a, a <+: way → ∀ b, t.get? (l ++ a) ≠ some (.file b)) :
    t.reach l (way.map .name) = .ok (l ++ way) ∨ t.reach l (way.map .name) = .error .notFound := by
  induction way generalizing l with
  | nil =>
    left
    simp [reach_nil]
  | cons n way ih =>
    rw [List.map_cons, reach_cons]
    cases hl : t.get? l with
    | none => exact .inr rfl
    | some e =>
      cases e with
      | file b => exact absurd (by simpa using hl) (hclear [] List.nil_prefix b)
      | directory =>
        have hn : ¬ nameLimit < byteLength n.text := Nat.not_lt.mpr (hshort n (by simp))
        have hnext := ih (l := l ++ [n]) (fun m hm => hshort m (by simp [hm])) fun a ha b => by
          rw [List.append_assoc, List.singleton_append]
          exact hclear (n :: a) (List.cons_prefix_cons.mpr ⟨rfl, ha⟩) b
        rw [List.append_assoc, List.singleton_append] at hnext
        dsimp only
        rwa [if_neg hn]

namespace Workspace

open Asset (along along_eq location_along isAbsolute_along segments_along)

variable {w : Workspace} {base : Path} {way : Location}

/-- Below a directory that is there, a path that fits and that no file stands in
the way of leads to its end, or to something that is missing. -/
theorem resolve_clear (hs : w.Stands base) (hp : (along base way).Fits)
    (hclear : ∀ a, a <+: way → ∀ b, w.tree.get? (base.location w.current ++ a) ≠ some (.file b)) :
    w.resolve (along base way) = .ok (base.location w.current ++ way) ∨
      w.resolve (along base way) = .error (.fault .notFound) := by
  obtain ⟨hnull, hlength, hshort⟩ := hp
  have hreach := Tree.reach_append (way.map .name) hs.reach
  have hnames : ∀ n ∈ way, Tree.byteLength n.text ≤ Tree.nameLimit := by
    intro n hn
    apply hshort (.name n)
    rw [along_eq]
    exact List.mem_append_right _ (List.mem_map_of_mem hn)
  rw [resolve, if_neg hnull, Tree.resolve, if_neg (Nat.not_le.mpr hlength), isAbsolute_along,
    segments_along, hreach]
  rcases Tree.reach_clear hnames hclear with h | h
  · rw [h]
    exact .inl rfl
  · rw [h]
    exact .inr rfl

theorem resolve_child {n : Name} (hs : w.Stands base) (hp : (along base [n]).Fits) :
    w.resolve (along base [n]) = .ok (base.location w.current ++ [n]) := by
  obtain ⟨hnull, hlength, hshort⟩ := hp
  have hn : ¬ Tree.nameLimit < Tree.byteLength n.text :=
    Nat.not_lt.mpr (hshort (.name n) (by rw [along_eq]; simp))
  rw [resolve, if_neg hnull, Tree.resolve, if_neg (Nat.not_le.mpr hlength), isAbsolute_along,
    segments_along, Tree.reach_append _ hs.reach, List.map_cons, Tree.reach_cons, hs.directory]
  dsimp only
  rw [if_neg hn, List.map_nil, Tree.reach_nil]

theorem stands_along (hs : w.Stands base) (hp : (along base way).Fits)
    (hget : w.tree.get? (base.location w.current ++ way) = some .directory) :
    w.Stands (along base way) := by
  obtain ⟨b, hb⟩ := isDirectory_of_fits (w := w) hp
  rw [Stands, hb, (isDirectory_along hs way hp.1 hb).mpr hget]

end Workspace

namespace Action

variable {w w' : Workspace} {p : Path} {u : Unit}

theorem forgive_ok {e : Failure} (h : forgive p e w = .ok u w') : w' = w ∧ w.Stands p := by
  have hasked (h : (do if !(← isDirectory p) then throw e : Action Unit) w = .ok u w') :
      w' = w ∧ w.Stands p := by
    obtain ⟨b, v, hask, h⟩ := bind_eq_ok.mp h
    obtain ⟨hdirectory, rfl⟩ := ask_eq_ok.mp hask
    cases b with
    | false => exact absurd h throw_ne_ok
    | true => exact ⟨(pure_eq_ok.mp h).2.symm, hdirectory⟩
  unfold forgive at h
  split at h
  · exact absurd h throw_ne_ok
  · exact hasked h
  · exact absurd h throw_ne_ok

theorem makeDirectory_stands (h : makeDirectory p w = .ok u w') : w'.Stands p := by
  have hleads := (makeDirectory_ok h).2
  rw [makeDirectory, change_eq_ok] at h
  obtain ⟨l, t, hr, -, ht, rfl⟩ := Workspace.onTree_ok h
  apply Workspace.Stands.of_resolve (Workspace.resolve_kept hleads.current hleads.kept hr)
  rw [(Tree.makeDirectory_ok ht).2, if_pos rfl]

theorem makeOne_stands (h : makeOne p w = .ok u w') : w'.Stands p := by
  unfold makeOne at h
  obtain ⟨made, v, hattempt, h⟩ := bind_eq_ok.mp h
  rcases attempt_eq_ok.mp hattempt with ⟨u', rfl, hmade⟩ | ⟨e, rfl, hmade⟩
  · obtain ⟨-, rfl⟩ := pure_eq_ok.mp h
    exact makeDirectory_stands hmade
  · obtain ⟨rfl, hs⟩ := forgive_ok h
    exact hs

theorem makeDirectories_stands (h : makeDirectories p w = .ok u w') : w'.Stands p := by
  unfold makeDirectories at h
  cases hrev : p.segments.reverse with
  | nil =>
    have hp : (⟨p.anchor, []⟩ : Path) = p := by
      rw [List.reverse_eq_nil_iff] at hrev
      rw [← hrev]
    rw [hrev, makeDirectoriesFrom, hp] at h
    exact makeOne_stands h
  | cons s outer =>
    have hp : (⟨p.anchor, (s :: outer).reverse⟩ : Path) = p := by
      rw [← hrev, List.reverse_reverse]
    rw [hrev, makeDirectoriesFrom, hp] at h
    obtain ⟨made, v, hattempt, h⟩ := bind_eq_ok.mp h
    rcases attempt_eq_ok.mp hattempt with ⟨u', rfl, hmade⟩ | ⟨e, rfl, hmade⟩
    · obtain ⟨-, rfl⟩ := pure_eq_ok.mp h
      exact makeDirectory_stands hmade
    · have hforgive (h : forgive p e v = .ok u w') : w'.Stands p := by
        obtain ⟨rfl, hs⟩ := forgive_ok h
        exact hs
      cases e with
      | fault f =>
        cases f with
        | notFound =>
          obtain ⟨_, v', -, h⟩ := bind_eq_ok.mp h
          exact makeOne_stands h
        | _ => exact hforgive h
      | _ => exact hforgive h

section

variable {α β : Type}

def OnlyTree (a : Action α) : Prop := ∀ w, a.final w = { w with tree := (a.final w).tree }

theorem OnlyTree.ok {a : Action α} (h : OnlyTree a) {x : α} (ha : a w = .ok x w') :
    w' = { w with tree := w'.tree } := by
  rw [← final_of_ok ha]
  exact h w

theorem onlyTree_of_same {a : Action α} (h : ∀ w, a.final w = w) : OnlyTree a := fun w => by
  rw [h]

theorem onlyTree_bind {a : Action α} {f : α → Action β} (ha : OnlyTree a)
    (hf : ∀ x, OnlyTree (f x)) : OnlyTree (a >>= f) := by
  intro w
  have hw := ha w
  cases h : a w with
  | ok x v =>
    rw [final_of_ok h] at hw
    rw [final, bind_of_ok h, ← final, hf x v, hw]
  | error e v =>
    rw [final_of_error h] at hw
    rw [final, bind_of_error h]
    exact hw

theorem onlyTree_attempt {a : Action α} (h : OnlyTree a) : OnlyTree (attempt a) := by
  intro w
  have hw := h w
  cases ha : a w with
  | ok x v => rwa [final_of_ok (attempt_of_ok ha), ← final_of_ok ha]
  | error e v => rwa [final_of_ok (attempt_of_error ha), ← final_of_error ha]

theorem onlyTree_forM {f : α → Action Unit} {xs : List α} (h : ∀ x ∈ xs, OnlyTree (f x)) :
    OnlyTree (xs.forM f) := by
  induction xs with
  | nil => exact onlyTree_of_same fun _ => rfl
  | cons x xs ih =>
    show OnlyTree (f x >>= fun _ => xs.forM f)
    exact onlyTree_bind (h x (by simp)) fun _ => ih fun y hy => h y (by simp [hy])

theorem makeDirectory_onlyTree (p : Path) : OnlyTree (makeDirectory p) := by
  intro w
  cases h : makeDirectory p w with
  | ok u w' =>
    have hchange := change_eq_ok.mp h
    obtain ⟨l, t, -, -, -, rfl⟩ := Workspace.onTree_ok hchange
    rw [final_of_ok h]
  | error e w' => rw [final_of_error h, makeDirectory_error h]

theorem forgive_onlyTree (p : Path) (e : Failure) : OnlyTree (forgive p e) :=
  onlyTree_of_same (forgive_final p e)

theorem makeOne_onlyTree (p : Path) : OnlyTree (makeOne p) := by
  refine onlyTree_bind (onlyTree_attempt (makeDirectory_onlyTree p)) fun made => ?_
  split
  · exact onlyTree_of_same fun _ => rfl
  · exact forgive_onlyTree p _

theorem makeDirectories_onlyTree (p : Path) : OnlyTree (makeDirectories p) := by
  unfold makeDirectories
  induction p.segments.reverse with
  | nil => exact makeOne_onlyTree _
  | cons s outer ih =>
    refine onlyTree_bind (onlyTree_attempt (makeDirectory_onlyTree _)) fun made => ?_
    split
    · exact onlyTree_of_same fun _ => rfl
    · exact onlyTree_bind ih fun _ => makeOne_onlyTree _
    · exact forgive_onlyTree _ _

end

section

open Asset (along along_eq along_along location_along)

variable {base : Path} {way : Location}

theorem makeDirectory_new {l : Location} (hr : w.resolve p = .ok l) (hnone : w.tree.get? l = none)
    (hparent : w.tree.get? l.dropLast = some .directory) :
    ∃ w', makeDirectory p w = .ok () w' := by
  refine ⟨{ w with tree := w.tree.put l .directory hparent fun _ => rfl }, ?_⟩
  rw [makeDirectory, change_eq_ok]
  unfold Workspace.makeDirectory Workspace.onTree
  rw [hr]
  simp [bind, Except.bind, Tree.makeDirectory, hnone, hparent, pure, Except.pure]

/-- Where no file stands in the way, a directory that cannot be made is there, or
what it would stand in is missing. -/
theorem makeDirectory_clear (hs : w.Stands base) (hp : (along base way).Fits)
    (hclear : ∀ a, a <+: way → ∀ b, w.tree.get? (base.location w.current ++ a) ≠ some (.file b)) :
    w.Stands (along base way) ∨ (∃ w', makeDirectory (along base way) w = .ok () w') ∨
      makeDirectory (along base way) w = .error (.fault .notFound) w := by
  cases hget : w.tree.get? (base.location w.current ++ way) with
  | some e =>
    cases e with
    | file b => exact absurd hget (hclear way (List.prefix_refl way) b)
    | directory => exact .inl (Workspace.stands_along hs hp hget)
  | none =>
    right
    rcases Workspace.resolve_clear hs hp hclear with hr | hr
    · by_cases hparent : w.tree.get? (base.location w.current ++ way).dropLast = some .directory
      · exact .inl (makeDirectory_new hr hget hparent)
      · right
        rw [makeDirectory, change_eq_error]
        refine ⟨?_, rfl⟩
        unfold Workspace.makeDirectory Workspace.onTree
        rw [hr]
        simp [bind, Except.bind, Tree.makeDirectory, hget, hparent, throw, throwThe,
          MonadExceptOf.throw]
    · right
      rw [makeDirectory, change_eq_error]
      refine ⟨?_, rfl⟩
      unfold Workspace.makeDirectory Workspace.onTree
      rw [hr]
      rfl

theorem makeOne_ok {n : Name} (hs : w.Stands base) (hp : (along base [n]).Fits)
    (hfree : ∀ b, w.tree.get? (base.location w.current ++ [n]) ≠ some (.file b)) :
    ∃ w', makeOne (along base [n]) w = .ok () w' := by
  cases hget : w.tree.get? (base.location w.current ++ [n]) with
  | none =>
    obtain ⟨w', hmake⟩ := makeDirectory_new (Workspace.resolve_child hs hp) hget
      (by simpa using hs.directory)
    exact ⟨w', bind_eq_ok.mpr ⟨_, w', attempt_of_ok hmake, rfl⟩⟩
  | some e =>
    cases e with
    | file b => exact absurd hget (hfree b)
    | directory =>
      have hthere := Workspace.stands_along hs hp hget
      have hattempt := attempt_of_error (makeDirectory_standing hthere)
      exact ⟨w, bind_eq_ok.mpr ⟨_, w, hattempt, forgive_standing hthere⟩⟩

theorem makeDirectories_ok (hs : w.Stands base) (hp : (along base way).Fits)
    (hclear : ∀ a, a <+: way → ∀ b, w.tree.get? (base.location w.current ++ a) ≠ some (.file b)) :
    ∃ w', makeDirectories (along base way) w = .ok () w' := by
  induction way using List.reverseRecOn with
  | nil =>
    rw [Asset.along_nil]
    exact ⟨w, makeDirectories_standing hs⟩
  | append_singleton way n ih =>
    have hrev : (along base (way ++ [n])).segments.reverse =
        .name n :: (along base way).segments.reverse := by
      simp [along_eq]
    have hanchor : (along base (way ++ [n])).anchor = (along base way).anchor := by
      simp [along_eq]
    have hpath : (⟨(along base way).anchor,
        (.name n :: (along base way).segments.reverse).reverse⟩ : Path) =
          along base (way ++ [n]) := by
      simp [along_eq]
    rcases makeDirectory_clear hs hp hclear with hthere | ⟨w', hmake⟩ | hmissing
    · exact ⟨w, makeDirectories_standing hthere⟩
    · rw [makeDirectories, hrev, hanchor, makeDirectoriesFrom, hpath]
      exact ⟨w', bind_eq_ok.mpr ⟨_, w', attempt_of_ok hmake, rfl⟩⟩
    · -- what is missing is made first, which changes no file
      obtain ⟨w₁, houter⟩ := ih hp.outer fun a ha => hclear a (ha.trans (List.prefix_append _ _))
      have hleads := makeDirectories_leads hs way
      rw [final_of_ok houter] at hleads
      have hstands : w₁.Stands (along base way) := makeDirectories_stands houter
      rw [← along_along] at hp
      obtain ⟨w', hone⟩ := makeOne_ok hstands hp fun b hb => by
        rw [location_along, hleads.current, List.append_assoc, ← Tree.file_eq_some,
          hleads.file_untouched (by simp), Tree.file_eq_some] at hb
        exact hclear _ (List.prefix_refl _) b hb
      rw [along_along] at hone
      rw [makeDirectories, hrev, hanchor, makeDirectoriesFrom, hpath]
      exact ⟨w', bind_eq_ok.mpr ⟨_, w, attempt_of_error hmissing,
        bind_eq_ok.mpr ⟨(), w₁, houter, hone⟩⟩⟩

theorem writeBytes_free {l : Location} (hr : w.resolve p = .ok l)
    (hparent : w.tree.get? l.dropLast = some .directory) (hfree : w.tree.get? l ≠ some .directory)
    (b : ByteArray) : ∃ w', writeBytes p b w = .ok () w' := by
  refine ⟨{ w with tree := w.tree.put l (.file b) hparent fun h => absurd h hfree }, ?_⟩
  rw [writeBytes, change_eq_ok]
  unfold Workspace.writeBytes Workspace.onTree
  rw [hr]
  simp [bind, Except.bind, Tree.writeFile, hfree, hparent, pure, Except.pure]

theorem writeBytes_over {l : Location} (hr : w.resolve p = .ok l) (hf : w.tree.file? l ≠ none)
    (b : ByteArray) : ∃ w', writeBytes p b w = .ok () w' := by
  obtain ⟨before, hbefore⟩ := Option.ne_none_iff_exists'.mp hf
  have hget := (w.tree.file_eq_some l before).mp hbefore
  have hl : l ≠ [] := by
    rintro rfl
    rw [Tree.get?_nil] at hget
    cases hget
  apply writeBytes_free hr (Tree.parent_isDirectory hl hget)
  rw [hget]
  simp

theorem writeBytes_new {n : Name} (hs : w.Stands base) (hp : (along base [n]).Fits)
    (hfree : w.tree.get? (base.location w.current ++ [n]) ≠ some .directory) (b : ByteArray) :
    ∃ w', writeBytes (along base [n]) b w = .ok () w' := by
  apply writeBytes_free (Workspace.resolve_child hs hp) _ hfree
  simpa using hs.directory

end

end Action

end ModBuild
