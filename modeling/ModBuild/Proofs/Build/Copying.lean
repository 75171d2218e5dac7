import ModBuild.Proofs.Build.Assets
import ModBuild.Proofs.Workspace.Directories
import ModBuild.Proofs.Workspace.Within

/-!
# When a copy succeeds

A file can be put at a way of the output if the file system takes its path, no
file stands where a directory has to be, and no directory stands where the file
has to be. A copy needs that and a source that can be read and written, and it
needs nothing else; so whether it succeeds is told without running it.
-/

set_option autoImplicit false

namespace ModBuild.Build

open Asset (along along_along location_along)

structure Open (layout : Layout) (w : Workspace) (way : Location) : Prop where
  fits : (along layout.output way).Fits
  clear : ∀ a, a <+: (Layout.mediaName :: Layout.luaName :: way).dropLast → ∀ b,
    w.tree.get? (layout.root.location w.current ++ a) ≠ some (.file b)
  free : w.tree.get? ((along layout.output way).location w.current) ≠ some .directory

structure Copyable (layout : Layout) (config : Config) (year : Nat) (w : Workspace) (source : Path)
    (way : Location) : Prop where
  opens : Open layout w way
  content : ∃ b, w.readBytes source = .ok b ∧
    (Asset.content? config year (along layout.output way) b).isSome

section

variable {layout : Layout} {config : Config} {year : Nat} {w v w' : Workspace} {way : Location}
  {source : Path} {c : Changes} {u : Unit}

theorem makeParent_ok (hs : w.Stands layout.root) (ho : Open layout w way) :
    ∃ v, Action.makeDirectories (along layout.output way).parent w = .ok () v := by
  obtain ⟨hfits, hclear, -⟩ := ho
  rw [Layout.output_along] at hfits ⊢
  rw [Asset.parent_along _ _ (by simp)]
  rw [← List.dropLast_append_getLast (l := Layout.mediaName :: Layout.luaName :: way) (by simp)]
    at hfits
  exact Action.makeDirectories_ok hs hfits.outer hclear

theorem makeParent_leads (hs : w.Stands layout.root) (way : Location)
    (hmake : Action.makeDirectories (along layout.output way).parent w = .ok u v) :
    w.Leads (Action.OnWay (layout.root.location w.current)
      (Layout.mediaName :: Layout.luaName :: way).dropLast) [] v := by
  rw [Layout.output_along, Asset.parent_along _ _ (by simp)] at hmake
  have hleads :=
    Action.makeDirectories_leads hs (Layout.mediaName :: Layout.luaName :: way).dropLast
  rwa [Action.final_of_ok hmake] at hleads

theorem makeParent_free (hs : w.Stands layout.root) (ho : Open layout w way)
    (hmake : Action.makeDirectories (along layout.output way).parent w = .ok u v) :
    v.tree.get? ((along layout.output way).location w.current) ≠ some .directory := by
  intro hd
  rcases (makeParent_leads hs way hmake).added _ hd with hw | ⟨a, -, ha, heq⟩
  · exact ho.free hw
  · rw [Layout.output_along, location_along, List.append_cancel_left_eq] at heq
    have hlength := ha.length_le
    rw [← heq, List.length_dropLast] at hlength
    simp only [List.length_cons] at hlength
    omega

theorem put_ok (hs : w.Stands layout.root) (ho : Open layout w way) (hway : way ≠ [])
    (hmake : Action.makeDirectories (along layout.output way).parent w = .ok u v)
    (b : ByteArray) : ∃ v', Action.writeBytes (along layout.output way) b v = .ok () v' := by
  have hparent := Action.makeDirectories_stands hmake
  have hcurrent := (makeParent_leads hs way hmake).current
  have hfree := makeParent_free hs ho hmake
  rw [Asset.parent_along _ _ hway] at hparent
  have htarget : along (along layout.output way.dropLast) [way.getLast hway] =
      along layout.output way := by
    rw [along_along, List.dropLast_append_getLast hway]
  rw [← htarget] at hfree ⊢
  apply Action.writeBytes_new hparent (by rw [htarget]; exact ho.fits)
  rwa [← location_along, hcurrent]

theorem open_of_put (hs : w.Stands layout.root) {v' : Workspace} {b : ByteArray}
    (hmake : Action.makeDirectories (along layout.output way).parent w = .ok u v)
    (hwrite : Action.writeBytes (along layout.output way) b v = .ok u v') :
    Open layout w way := by
  have hleads := makeParent_leads hs way hmake
  obtain ⟨hresolve, -⟩ := Action.writeBytes_ok (D := fun _ => True) hwrite
  obtain ⟨-, hfree, -⟩ := Action.writeBytes_entries hwrite
  rw [hleads.current] at hfree
  refine ⟨Workspace.fits_of_resolve hresolve, fun a ha b hb => ?_,
    fun hd => hfree (hleads.kept _ hd)⟩
  -- the file would still be there, on the way to a directory that was made
  have hparent := (Action.makeDirectories_stands hmake).directory
  rw [Layout.output_along, Asset.parent_along _ _ (by simp), location_along, hleads.current]
    at hparent
  obtain ⟨rest, hrest⟩ := ha
  have hfile := hleads.file_untouched (l := layout.root.location w.current ++ a) (by simp)
  rw [(Tree.file_eq_some _ _ _).mpr hb, Tree.file_eq_some] at hfile
  rw [← hrest, ← List.append_assoc] at hparent
  by_cases hnil : rest = []
  · rw [hnil, List.append_nil, hfile] at hparent
    cases hparent
  · rw [Tree.get_below_none hnil (by rw [hfile]; simp)] at hparent
    cases hparent

theorem Open.same (ho : Open layout w way) (ht : v.tree = w.tree) (hc : v.current = w.current) :
    Open layout v way :=
  ⟨ho.fits, fun a ha b => by rw [ht, hc]; exact ho.clear a ha b, by rw [ht, hc]; exact ho.free⟩

theorem log_same (level : Level) (m : Text) (w : Workspace) :
    ∃ v, Action.log level m none w = .ok () v ∧ v.tree = w.tree ∧ v.current = w.current :=
  ⟨_, rfl, rfl, rfl⟩

theorem transfer_ok {p : Path} {b : ByteArray} (hread : v.readBytes source = .ok b)
    (hcontent : (Asset.content? config year p b).isSome)
    (hwrite : ∀ content, ∃ w', Action.writeBytes p content v = .ok () w') :
    ∃ w', (if Banner.applies p then
        Action.readText source >>= fun s => Action.writeText? p (Banner.wrap? config year s)
      else Action.readBytes source >>= fun b => Action.writeBytes p b) v = .ok () w' := by
  rw [Asset.content?] at hcontent
  split
  · next happ =>
    rw [if_pos happ] at hcontent
    obtain ⟨content, hc⟩ := Option.isSome_iff_exists.mp hcontent
    obtain ⟨t, ht, hwrapped⟩ := Option.bind_eq_some_iff.mp hc
    obtain ⟨wrapped, hw, -⟩ := Option.map_eq_some_iff.mp hwrapped
    have htext : Action.readText source v = .ok (Text.unifyBreaks t) v :=
      Action.ask_eq_ok.mpr ⟨Workspace.readText_of_bytes hread ht, rfl⟩
    rw [Action.bind_of_ok htext, hw]
    exact hwrite _
  · have hbytes : Action.readBytes source v = .ok b v := Action.ask_eq_ok.mpr ⟨hread, rfl⟩
    rw [Action.bind_of_ok hbytes]
    exact hwrite _

theorem copy_ok (hs : w.Stands layout.root) (hway : way ≠ [])
    (h : Copyable layout config year w source way) :
    ∃ w', Asset.copy source (along layout.output way) config year w = .ok () w' := by
  obtain ⟨ho, b, hread, hcontent⟩ := h
  unfold Asset.copy
  obtain ⟨w₁, hlog, htree, hcurrent⟩ := log_same .info ("Copying \"".toList ++ source.print ++
    "\" to \"".toList ++ (along layout.output way).print ++ "\"..".toList) w
  have hlogged : w.Leads (fun _ => False) [] w₁ := .of_tree htree hcurrent
  have hs₁ : w₁.Stands layout.root := hs.leads hlogged
  have ho₁ := ho.same htree hcurrent
  obtain ⟨v, hmake⟩ := makeParent_ok hs₁ ho₁
  have hleads := makeParent_leads hs₁ way hmake
  have hread₁ := Workspace.readBytes_kept hlogged.current hlogged.kept
    (hlogged.file_untouched (by simp)) hread
  have hread' := Workspace.readBytes_kept hleads.current hleads.kept
    (hleads.file_untouched (by simp)) hread₁
  rw [Action.bind_of_ok hlog, Action.bind_of_ok hmake]
  exact transfer_ok hread' hcontent (put_ok hs₁ ho₁ hway hmake)

theorem copyable_of_copy (hs : w.Stands layout.root) (hsource : w.isFile source = .ok true)
    (h : Asset.copy source (along layout.output way) config year w = .ok u w') :
    Copyable layout config year w source way := by
  obtain ⟨w₁, v, u₁, bytes, b, htree, hcurrent, hmake, hread, hcontent, hwrite⟩ :=
    Asset.copy_steps h
  have hlogged : w.Leads (fun _ => False) [] w₁ := .of_tree htree hcurrent
  have hs₁ : w₁.Stands layout.root := hs.leads hlogged
  have hleads := makeParent_leads hs₁ way hmake
  obtain ⟨hresolve, -⟩ := Workspace.file_of_isFile hsource
  have hsame : v.tree.file? (source.location v.current) =
      w.tree.file? (source.location w.current) := by
    rw [hleads.file_untouched (by simp), hlogged.file_untouched (by simp), hleads.current,
      hlogged.current]
  have hbytes := (Workspace.readBytes_ok hread).2
  rw [hsame] at hbytes
  refine ⟨(open_of_put hs₁ hmake hwrite).same htree.symm hcurrent.symm, bytes,
    Workspace.readBytes_of_file hresolve hbytes, ?_⟩
  rw [hcontent]
  rfl

theorem file_stays (hlaid : Laid layout w c v) {l : Location} (h : w.tree.file? l ≠ none) :
    v.tree.file? l ≠ none := by
  rw [hlaid.leads.files]
  by_cases hgiven : ∃ x ∈ c, x.1 = l
  · obtain ⟨x, hx, -, hvalue⟩ := overlay_at c w.tree.file? l hgiven
    rw [hvalue]
    exact Option.isSome_iff_ne_none.mp (hlaid.filled x hx)
  · rw [overlay_untouched c _ l fun x hx he => hgiven ⟨x, hx, he⟩]
    exact h

theorem Open.earlier (hlaid : Laid layout w c v) (ho : Open layout v way) : Open layout w way where
  fits := ho.fits
  clear a ha b hb := by
    have hfile : w.tree.file? (layout.root.location w.current ++ a) ≠ none := by
      rw [(w.tree.file_eq_some _ b).mpr hb]
      simp
    obtain ⟨b', hb'⟩ := Option.ne_none_iff_exists'.mp (file_stays hlaid hfile)
    apply ho.clear a ha b'
    rw [hlaid.current]
    exact (v.tree.file_eq_some _ b').mp hb'
  free hd := by
    apply ho.free
    rw [hlaid.current]
    exact hlaid.leads.kept _ hd

theorem Copyable.earlier (hlaid : Laid layout w c v) (hsource : w.isFile source = .ok true)
    (hout : ¬ layout.Inside w.current (source.location w.current))
    (h : Copyable layout config year v source way) : Copyable layout config year w source way := by
  obtain ⟨ho, b, hread, hcontent⟩ := h
  refine ⟨ho.earlier hlaid, b, ?_, hcontent⟩
  obtain ⟨hresolve, -⟩ := Workspace.file_of_isFile hsource
  have hfile := (Workspace.readBytes_ok hread).2
  rw [hlaid.current, hlaid.spares.file _ hout] at hfile
  exact Workspace.readBytes_of_file hresolve hfile

end

end ModBuild.Build
