import ModBuild.Build
import ModBuild.Proofs.Build.Libraries
import ModBuild.Proofs.Workspace.Failing
import ModBuild.Proofs.Workspace.Fitting
import ModBuild.Proofs.Workspace.Within

/-!
# Holding the scopes

The placeholders that are made for an action take up places that were free. Next to
them there are at most new directories of the sources, so an action that leaves the
placeholders alone can be told without them, and after it they can all be taken away.
-/

set_option autoImplicit false

namespace ModBuild

namespace Action

theorem andThen_final {α : Type} (a : Action α) (after : Action Unit) (w : Workspace) :
    (andThen a after).final w = after.final (a.final w) := by
  rw [final, andThen]
  cases h : a w with
  | ok x v =>
    rw [final_of_ok h, final]
    dsimp only
    cases after v <;> rfl
  | error e v =>
    rw [final_of_error h, final]
    dsimp only
    cases after v <;> rfl

theorem removeFileIfAny_ok {w : Workspace} {p : Path} {b : ByteArray}
    (hr : w.resolve p = .ok (p.location w.current))
    (hf : w.tree.file? (p.location w.current) = some b) :
    ∃ w', removeFileIfAny p w = .ok () w' ∧ w'.current = w.current ∧
      ∀ l, w'.tree.get? l = if p.location w.current = l then none else w.tree.get? l := by
  have hget := (w.tree.file_eq_some _ b).mp hf
  have hremove : removeFile p w =
      .ok () { w with tree := w.tree.prune (p.location w.current) } := by
    rw [removeFile, change_eq_ok, Workspace.removeFile, Workspace.onTree, hr]
    simp [bind, Except.bind, Tree.removeFile, hget, pure, Except.pure]
  obtain ⟨hcurrent, -, hentries⟩ := removeFile_entries hremove
  exact ⟨_, (removeFileIfAny_there hr hf).trans hremove, hcurrent, hentries⟩

end Action

namespace Workspace

variable {w w' : Workspace} {p : Path}

theorem occupied_of_resolve {l : Location} (h : w.resolve p = .ok l)
    (hthere : w.tree.get? l ≠ none) : w.occupied p = .ok true := by
  obtain ⟨e, he⟩ := Option.ne_none_iff_exists'.mp hthere
  rw [occupied, entry?, h]
  simp only [he]
  rfl

theorem occupied_kept (hc : w'.current = w.current)
    (hk : ∀ l, w.tree.get? l = some .directory → w'.tree.get? l = some .directory)
    (hthere : w.tree.get? (p.location w.current) ≠ none →
      w'.tree.get? (p.location w.current) ≠ none)
    (h : w.occupied p = .ok true) : w'.occupied p = .ok true := by
  obtain ⟨e, he, hb⟩ := entry_of_occupied h
  obtain ⟨e, rfl⟩ := Option.ne_none_iff_exists'.mp (hb.mp rfl)
  obtain ⟨hresolve, hget⟩ := resolve_of_entry he
  exact occupied_of_resolve (resolve_kept hc hk hresolve) (hthere (by simp [hget]))

structure Marked (places : List Location) (b : ByteArray) (w u : Workspace) : Prop where
  current : u.current = w.current
  nodup : places.Nodup
  free : ∀ l ∈ places, w.tree.get? l = none
  entry : ∀ m, u.tree.get? m = if m ∈ places then some (.file b) else w.tree.get? m

namespace Marked

variable {places more : List Location} {b : ByteArray} {w u v t : Workspace}

theorem refl (b : ByteArray) (w : Workspace) : Marked [] b w w :=
  ⟨rfl, List.nodup_nil, by simp, by simp⟩

theorem there (h : Marked places b w u) {l : Location} (hl : l ∈ places) :
    u.tree.get? l = some (.file b) := by
  rw [h.entry, if_pos hl]

theorem away (h : Marked places b w u) {l : Location} (hl : l ∉ places) :
    u.tree.get? l = w.tree.get? l := by
  rw [h.entry, if_neg hl]

theorem trans (h : Marked places b w u) (h' : Marked more b u t) :
    Marked (more ++ places) b w t := by
  -- what is marked second was free still, so it is not what was marked first
  have hnew (l : Location) (hl : l ∈ more) : l ∉ places := fun hin => by
    have hfree := h'.free l hl
    rw [h.there hin] at hfree
    cases hfree
  refine ⟨h'.current.trans h.current, ?_, fun l hl => ?_, fun m => ?_⟩
  · exact List.nodup_append.mpr ⟨h'.nodup, h.nodup, fun l hl m hm => by
      rintro rfl
      exact hnew l hl hm⟩
  · rcases List.mem_append.mp hl with hl | hl
    · rw [← h.away (hnew l hl)]
      exact h'.free l hl
    · exact h.free l hl
  · rw [h'.entry, h.entry]
    by_cases hm : m ∈ more <;> simp [hm]

theorem perm (h : Marked places b w u) (hp : places.Perm more) : Marked more b w u where
  current := h.current
  nodup := hp.nodup_iff.mp h.nodup
  free l hl := h.free l (hp.mem_iff.mpr hl)
  entry m := by simp only [h.entry, hp.mem_iff]

theorem of_write {p : Path} {x : Unit} (hfree : w.tree.get? (p.location w.current) = none)
    (h : Action.writeBytes p b w = .ok x u) : Marked [p.location w.current] b w u := by
  obtain ⟨hcurrent, -, hentry⟩ := Action.writeBytes_entries h
  refine ⟨hcurrent, List.nodup_singleton _, by simpa using hfree, fun m => ?_⟩
  simp only [hentry, List.mem_singleton, eq_comm]

theorem of_removed {l : Location} (hcurrent : w.current = u.current)
    (hentry : ∀ m, w.tree.get? m = if l = m then none else u.tree.get? m)
    (hthere : u.tree.get? l = some (.file b)) : Marked [l] b w u := by
  refine ⟨hcurrent.symm, List.nodup_singleton _, by simp [hentry], fun m => ?_⟩
  by_cases hm : m = l
  · rw [hm, hthere, if_pos (List.mem_singleton_self l)]
  · rw [if_neg (by simpa using hm), hentry, if_neg (Ne.symm hm)]

theorem exists_unmarked {l : Location} (hthere : u.tree.get? l = some (.file b)) :
    ∃ w, Marked [l] b w u := by
  have hremove : u.tree.removeFile l = .ok (u.tree.prune l) := by simp [Tree.removeFile, hthere]
  exact ⟨{ u with tree := u.tree.prune l },
    .of_removed rfl (Tree.removeFile_ok hremove).2 hthere⟩

theorem directory_iff (h : Marked places b w u) (m : Location) :
    u.tree.get? m = some .directory ↔ w.tree.get? m = some .directory := by
  by_cases hm : m ∈ places
  · simp [h.there hm, h.free m hm]
  · rw [h.away hm]

theorem stands_iff (h : Marked places b w u) {p : Path} : u.Stands p ↔ w.Stands p :=
  ⟨fun hs => hs.kept h.current.symm fun l => (h.directory_iff l).mp,
    fun hs => hs.kept h.current fun l => (h.directory_iff l).mpr⟩

theorem resolve (h : Marked places b w u) {p : Path} {l : Location}
    (hr : w.resolve p = .ok l) : u.resolve p = .ok l :=
  resolve_kept h.current (fun m => (h.directory_iff m).mpr) hr

theorem of_resolve (h : Marked places b w u) {p : Path} {l : Location}
    (hr : u.resolve p = .ok l) : w.resolve p = .ok l :=
  resolve_kept h.current.symm (fun m => (h.directory_iff m).mp) hr

theorem file_free (h : Marked places b w u) {l : Location} (hl : l ∈ places) :
    w.tree.file? l = none := by
  rw [Tree.file?, h.free l hl]
  rfl

theorem file_away (h : Marked places b w u) {l : Location} (hl : l ∉ places) :
    u.tree.file? l = w.tree.file? l := by
  rw [Tree.file?, Tree.file?, h.away hl]

theorem leads (hw : Marked places b w u) (hv : Marked places b v t) {D : Location → Prop}
    {c : Changes} (h : u.Leads D c t) (hc : ∀ x ∈ c, x.1 ∉ places) : w.Leads D c v where
  current := by rw [← hv.current, h.current, hw.current]
  files l := by
    by_cases hl : l ∈ places
    · rw [hv.file_free hl, overlay_untouched c _ l fun x hx e => hc x hx (e ▸ hl), hw.file_free hl]
    · rw [← hv.file_away hl, h.files]
      exact overlay_congr c _ _ l (hw.file_away hl)
  kept l hl := (hv.directory_iff l).mp (h.kept l ((hw.directory_iff l).mpr hl))
  added l hl := (h.added l ((hv.directory_iff l).mpr hl)).imp_left (hw.directory_iff l).mp

end Marked

end Workspace

namespace Layout

open Asset (along location_along)

variable {layout : Layout}

def Site (layout : Layout) (current l : Location) : Prop :=
  l = layout.source.location current ∨
    ∃ s ∈ Scope.directories, l = (layout.sourceDirectory s).location current

theorem site_of_way {s : Scope} (hs : s ∈ Scope.directories) {current l : Location}
    (h : Action.OnWay (layout.root.location current) [sourceName, s.name] l) :
    layout.Site current l := by
  obtain ⟨a, ha, hway, rfl⟩ := h
  match a, ha with
  | [n], _ =>
    rw [List.cons_prefix_cons] at hway
    rw [hway.1, ← source_location]
    exact .inl rfl
  | n :: m :: a, _ =>
    rw [List.cons_prefix_cons, List.cons_prefix_cons] at hway
    obtain ⟨rfl, rfl, hway⟩ := hway
    rw [List.prefix_nil.mp hway, ← location_along, ← source_along, ← sourceDirectory_eq]
    exact .inr ⟨s, hs, rfl⟩

theorem Site.ground {current l : Location} (h : layout.Site current l) :
    layout.Ground current l := by
  rcases h with h | ⟨s, -, h⟩
  · exact .inr (.inr (.inr (.inl h)))
  · exact .inr (.inr (.inr (.inr ⟨s, h⟩)))

end Layout

namespace Build

open ModBuild.Action
open ModBuild.Workspace (Marked)
open Asset (along location_along)

variable {layout : Layout} {w w' w₁ v v' : Workspace} {s : Scope} {made scopes : List Scope}

def placeholderName : Name := ⟨placeholderFile, by decide⟩

theorem placeholder_root (layout : Layout) (s : Scope) : placeholder layout s =
    along layout.root [Layout.sourceName, s.name, placeholderName] := by
  have h := Asset.div_name (layout.sourceDirectory s) placeholderName
  rw [Layout.sourceDirectory_eq, Asset.along_along, ← Layout.sourceDirectory_eq] at h
  change placeholder layout s = _ at h
  rw [h, List.singleton_append, Layout.source_along]

theorem placeholder_location (layout : Layout) (s : Scope) (current : Location) :
    (placeholder layout s).location current = layout.root.location current ++
      [Layout.sourceName, s.name, placeholderName] := by
  rw [placeholder_root, Asset.location_along]

theorem placeholder_parent (layout : Layout) (s : Scope) :
    (placeholder layout s).parent = along layout.root [Layout.sourceName, s.name] := by
  rw [placeholder_root, Asset.parent_along _ _ (by simp)]
  rfl

theorem placeholder_fits (s : Scope) :
    ∀ n ∈ [Layout.sourceName, s.name, placeholderName], n.Fits := by
  cases s <;> decide

theorem placeholder_free {s : Scope} (hs : w.Stands layout.root)
    (hfree : w.occupied (placeholder layout s) = .ok false) :
    w.tree.get? ((placeholder layout s).location w.current) = none := by
  obtain ⟨e, he, hb⟩ := Workspace.entry_of_occupied hfree
  rw [placeholder_root] at he
  rw [Workspace.entry_again hs hs (placeholder_fits s) he] at he
  rw [placeholder_location, Except.ok.inj he]
  cases e with
  | none => rfl
  | some e => simp at hb

theorem placeholder_not_ground (layout : Layout) (s : Scope) (current : Location) :
    ¬ layout.Ground current ((placeholder layout s).location current) := by
  rw [placeholder_location]
  rintro (h | h | h | h | ⟨t, h⟩)
  · exact Layout.not_inside (by decide) _ h
  · simp at h
  · rw [Layout.dist_eq, location_along] at h
    simp at h
  · rw [Layout.source_location] at h
    simp at h
  · rw [Layout.sourceDirectory_eq, Layout.source_along, location_along] at h
    simp at h

structure Passes (layout : Layout) (v v' : Workspace) : Prop where
  current : v'.current = v.current
  kept : ∀ l, v.tree.get? l = some .directory → v'.tree.get? l = some .directory
  places : ∀ s, v'.tree.get? ((placeholder layout s).location v.current) =
    v.tree.get? ((placeholder layout s).location v.current)

namespace Passes

theorem refl (layout : Layout) (w : Workspace) : Passes layout w w :=
  ⟨rfl, fun _ hl => hl, fun _ => rfl⟩

theorem of_leads (h : w.Leads (layout.Site w.current) [] w') : Passes layout w w' :=
  ⟨h.current, h.kept, fun s => h.get_untouched (by simp) fun hD =>
    placeholder_not_ground layout s _ hD.ground⟩

theorem occupied (h : Passes layout w w') (hthere : w.occupied (placeholder layout s) = .ok true) :
    w'.occupied (placeholder layout s) = .ok true :=
  Workspace.occupied_kept h.current h.kept (by rw [h.places]; exact id) hthere

end Passes

def places (layout : Layout) (made : List Scope) (current : Location) : List Location :=
  made.map fun s => (placeholder layout s).location current

/-- From the first workspace to the second, at most directories of the sources have
been made, and the third one has the placeholders of the scopes besides. -/
structure Holds (layout : Layout) (made : List Scope) (w w₁ v : Workspace) : Prop where
  leads : w.Leads (layout.Site w.current) [] w₁
  marked : Marked (places layout made w.current) (Text.encode []) w₁ v
  parent : ∀ s ∈ made, w₁.Stands (placeholder layout s).parent
  resolve : ∀ s ∈ made,
    w₁.resolve (placeholder layout s) = .ok ((placeholder layout s).location w.current)

namespace Holds

theorem of_leads (h : w.Leads (layout.Site w.current) [] v) : Holds layout [] w v v :=
  ⟨h, .refl _ v, by simp, by simp⟩

theorem current (h : Holds layout made w w₁ v) : v.current = w.current :=
  h.marked.current.trans h.leads.current

theorem stands (h : Holds layout made w w₁ v) {p : Path} (hs : w.Stands p) : v.Stands p :=
  h.marked.stands_iff.mpr (hs.leads h.leads)

theorem occupied (h : Holds layout made w w₁ v)
    (hthere : w.occupied (placeholder layout s) = .ok true) :
    v.occupied (placeholder layout s) = .ok true := by
  have h₁ := (Passes.of_leads h.leads).occupied hthere
  refine Workspace.occupied_kept h.marked.current (fun l => (h.marked.directory_iff l).mpr)
    (fun hget => ?_) h₁
  by_cases hl : (placeholder layout s).location w₁.current ∈ places layout made w.current
  · simp [h.marked.there hl]
  · rwa [h.marked.away hl]

theorem cons {w₀ v₀ w₁' : Workspace} (h : Holds layout [s] w w₀ v₀)
    (h' : Holds layout made v₀ w₁' v)
    (hm : Marked (places layout [s] w.current) (Text.encode []) w₁ w₁') :
    Holds layout (s :: made) w w₁ v := by
  obtain ⟨hleads', hmarked', hparent', hresolve'⟩ := h'
  rw [h.current] at hleads' hmarked' hresolve'
  have hstep := h.marked.leads hm hleads' (by simp)
  refine ⟨h.leads.trans hstep, ?_, List.forall_mem_cons.mpr ⟨?_, fun t ht => ?_⟩,
    List.forall_mem_cons.mpr ⟨?_, fun t ht => ?_⟩⟩
  · exact (hm.trans hmarked').perm (List.perm_append_singleton _ _)
  · exact (h.parent s (by simp)).leads hstep
  · exact hm.stands_iff.mp (hparent' t ht)
  · exact Workspace.resolve_kept hstep.current hstep.kept (h.resolve s (by simp))
  · exact hm.of_resolve (hresolve' t ht)

theorem exists_cons {w₀ v₀ w₁' : Workspace} (h : Holds layout [s] w w₀ v₀)
    (h' : Holds layout made v₀ w₁' v) :
    ∃ w₁, Marked (places layout [s] w.current) (Text.encode []) w₁ w₁' ∧
      Holds layout (s :: made) w w₁ v := by
  have hthere : w₁'.tree.get? ((placeholder layout s).location w.current) =
      some (.file (Text.encode [])) := by
    rw [← h.current, (Passes.of_leads h'.leads).places s, h.current]
    exact h.marked.there (by simp [places])
  obtain ⟨w₁, hm⟩ := Marked.exists_unmarked hthere
  exact ⟨w₁, hm, h.cons h' hm⟩

end Holds

theorem hold_ok (hs : w.Stands layout.root) (hscope : s ∈ Scope.directories) {new : Bool}
    (h : hold layout s w = .ok new v) :
    new = false ∧ v = w ∧ w.occupied (placeholder layout s) = .ok true ∨
      new = true ∧ w.occupied (placeholder layout s) = .ok false ∧
        ∃ w₁, Holds layout [s] w w₁ v := by
  unfold hold at h
  obtain ⟨there, w₀, hask, h⟩ := bind_eq_ok.mp h
  obtain ⟨hthere, rfl⟩ := ask_eq_ok.mp hask
  cases there with
  | true =>
    obtain ⟨rfl, rfl⟩ := pure_eq_ok.mp h
    exact .inl ⟨rfl, rfl, hthere⟩
  | false =>
    obtain ⟨_, w₁, hmake, h⟩ := bind_eq_ok.mp h
    obtain ⟨_, w₂, hwrite, h⟩ := bind_eq_ok.mp h
    obtain ⟨rfl, rfl⟩ := pure_eq_ok.mp h
    have hparent := makeDirectories_stands hmake
    have hleads := (makeDirectories_leads hs [Layout.sourceName, s.name]).mono fun l =>
      Layout.site_of_way hscope
    rw [← placeholder_parent, final_of_ok hmake] at hleads
    obtain ⟨hresolve, -⟩ := writeBytes_ok (D := fun _ => True) hwrite
    have hfree : w₁.tree.get? ((placeholder layout s).location w₁.current) = none := by
      rw [hleads.current, (Passes.of_leads hleads).places]
      exact placeholder_free hs hthere
    have hmarked := Marked.of_write hfree hwrite
    rw [hleads.current] at hresolve hmarked
    exact .inr ⟨rfl, hthere, w₁, hleads, hmarked, by simpa using hparent, by simpa using hresolve⟩

theorem hold_error (hs : w.Stands layout.root) (hscope : s ∈ Scope.directories) {e : Failure}
    (h : hold layout s w = .error e v) : w.Leads (layout.Site w.current) [] v := by
  unfold hold at h
  rcases bind_error h with hask | ⟨there, w₀, hask, h⟩
  · have hv : (Action.occupied (placeholder layout s)).final w = w := ask_final _ w
    rw [final_of_error hask] at hv
    rw [hv]
    exact .refl w _
  obtain ⟨-, rfl⟩ := ask_eq_ok.mp hask
  cases there with
  | true => cases h
  | false =>
    have hleads := (makeDirectories_leads hs [Layout.sourceName, s.name]).mono fun l =>
      Layout.site_of_way hscope
    rw [← placeholder_parent] at hleads
    rcases bind_error h with hmake | ⟨_, w₁, hmake, h⟩
    · rwa [final_of_error hmake] at hleads
    · rw [final_of_ok hmake] at hleads
      rcases bind_error h with hwrite | ⟨_, w₂, -, h⟩
      · rwa [← (change_eq_error.mp hwrite).2]
      · cases h

theorem hold_occupied (h : w.occupied (placeholder layout s) = .ok true) :
    hold layout s w = .ok false w := by
  have hasked : Action.occupied (placeholder layout s) w = .ok true w := ask_eq_ok.mpr ⟨h, rfl⟩
  rw [hold, bind_of_ok hasked]
  rfl

theorem holdAll_cons {new : Bool} {held : Except Failure Unit} (h : hold layout s w = .ok new v)
    (hall : holdAll layout scopes v = .ok (made, held) v') :
    holdAll layout (s :: scopes) w = .ok (if new then s :: made else made, held) v' := by
  rw [holdAll, bind_of_ok (attempt_of_ok h)]
  exact bind_of_ok hall

theorem of_holdAll_cons (h : holdAll layout (s :: scopes) w = .ok (made, .ok ()) v') :
    ∃ new v others, hold layout s w = .ok new v ∧
      holdAll layout scopes v = .ok (others, .ok ()) v' ∧
      made = if new then s :: others else others := by
  rw [holdAll] at h
  obtain ⟨r, v, hattempt, h⟩ := bind_eq_ok.mp h
  rcases attempt_eq_ok.mp hattempt with ⟨new, rfl, hhold⟩ | ⟨e, rfl, -⟩
  · obtain ⟨⟨others, held⟩, v₁, hall, h⟩ := bind_eq_ok.mp h
    obtain ⟨hmade, rfl⟩ := pure_eq_ok.mp h
    obtain ⟨rfl, rfl⟩ := Prod.mk.inj hmade
    exact ⟨new, v, others, hhold, hall, rfl⟩
  · cases h

theorem holdAll_holds (hscopes : ∀ s ∈ scopes, s ∈ Scope.directories)
    (hs : w.Stands layout.root) :
    ∃ made held w₁ v, holdAll layout scopes w = .ok (made, held) v ∧
      Holds layout made w w₁ v ∧
      (held = .ok () → ∀ s ∈ scopes, v.occupied (placeholder layout s) = .ok true) := by
  induction scopes generalizing w with
  | nil => exact ⟨[], .ok (), w, w, rfl, .of_leads (.refl w _), by simp⟩
  | cons s scopes ih =>
    obtain ⟨hscope, hrest⟩ := List.forall_mem_cons.mp hscopes
    cases hhold : hold layout s w with
    | error e v =>
      refine ⟨[], .error e, v, v, ?_, .of_leads (hold_error hs hscope hhold), by simp⟩
      rw [holdAll, bind_of_ok (attempt_of_error hhold)]
      rfl
    | ok new v₀ =>
      rcases hold_ok hs hscope hhold with ⟨rfl, rfl, hthere⟩ | ⟨rfl, -, w₀, hone⟩
      · obtain ⟨made, held, w₁, v, hall, hholds, hheld⟩ := ih hrest hs
        exact ⟨made, held, w₁, v, holdAll_cons hhold hall, hholds,
          fun h => List.forall_mem_cons.mpr ⟨hholds.occupied hthere, hheld h⟩⟩
      · obtain ⟨made, held, w₁', v, hall, hholds, hheld⟩ := ih hrest (hone.stands hs)
        obtain ⟨w₁, -, hcons⟩ := hone.exists_cons hholds
        have hthere : v₀.occupied (placeholder layout s) = .ok true :=
          Workspace.occupied_of_resolve (hone.marked.resolve (hone.resolve s (by simp)))
            (by simp [hone.marked.there (l := (placeholder layout s).location w.current)
              (by simp [places])])
        exact ⟨s :: made, held, w₁, v, holdAll_cons hhold hall, hcons,
          fun h => List.forall_mem_cons.mpr ⟨hholds.occupied hthere, hheld h⟩⟩

theorem release_ok (hnodup : (places layout made w.current).Nodup)
    (hthere : ∀ l ∈ places layout made w.current, w.tree.get? l = some (.file (Text.encode [])))
    (hresolve : ∀ s ∈ made,
      w.resolve (placeholder layout s) = .ok ((placeholder layout s).location w.current)) :
    ∃ v, release layout made w = .ok () v ∧
      Marked (places layout made w.current) (Text.encode []) v w := by
  induction made generalizing w with
  | nil => exact ⟨w, rfl, .refl _ w⟩
  | cons s made ih =>
    obtain ⟨hnew, hnodup⟩ := List.nodup_cons.mp hnodup
    obtain ⟨hget, hothers⟩ := List.forall_mem_cons.mp hthere
    obtain ⟨hone, hresolve⟩ := List.forall_mem_cons.mp hresolve
    obtain ⟨u, hremove, hcurrent, hentry⟩ :=
      removeFileIfAny_ok hone ((w.tree.file_eq_some _ _).mpr hget)
    have hmarked := Marked.of_removed hcurrent hentry hget
    obtain ⟨v, hrelease, hrest⟩ := ih (w := u) (by rwa [hcurrent])
      (fun l hl => by
        rw [hcurrent] at hl
        have hne : l ∉ [(placeholder layout s).location w.current] := fun h => by
          rw [List.mem_singleton.mp h] at hl
          exact hnew hl
        rw [← hmarked.away hne]
        exact hothers l hl)
      (fun t ht => by
        rw [hcurrent]
        exact hmarked.of_resolve (hresolve t ht))
    rw [hcurrent] at hrest
    refine ⟨v, ?_, hrest.trans hmarked⟩
    change (removeFileIfAny (placeholder layout s) >>= fun _ => release layout made) w = _
    rw [bind_of_ok hremove, hrelease]

theorem Holds.release (h : Holds layout made w w₁ v) (hpasses : Passes layout v v') :
    ∃ w', Build.release layout made v' = .ok () w' ∧
      Marked (places layout made w.current) (Text.encode []) w' v' := by
  have hcurrent : v'.current = w.current := hpasses.current.trans h.current
  rw [← hcurrent]
  apply release_ok
  · rw [hcurrent]
    exact h.marked.nodup
  · intro l hl
    rw [hcurrent] at hl
    obtain ⟨s, -, rfl⟩ := List.mem_map.mp hl
    rw [← h.current, hpasses.places, h.current]
    exact h.marked.there hl
  · intro s hs
    rw [hcurrent]
    exact Workspace.resolve_kept hpasses.current hpasses.kept
      (h.marked.resolve (h.resolve s hs))

variable {α : Type} {action : Action α}

/-- An action that succeeds while the placeholders stand is run between making them and
taking them away. -/
theorem withPlaceholders_around (hscopes : ∀ s ∈ scopes, s ∈ Scope.directories)
    (hs : w.Stands layout.root) {x : α}
    (hpasses : ∀ v v', v.Stands layout.root → v.current = w.current → action v = .ok x v' →
      Passes layout v v')
    (h : withPlaceholders layout action scopes w = .ok x w') :
    ∃ made w₁ v v', holdAll layout scopes w = .ok (made, .ok ()) v ∧ Holds layout made w w₁ v ∧
      action v = .ok x v' ∧ Marked (places layout made w.current) (Text.encode []) w' v' := by
  obtain ⟨made, held, w₁, v, hall, hholds, -⟩ := holdAll_holds hscopes hs
  rw [withPlaceholders, bind_of_ok hall] at h
  obtain ⟨v', _, haction, hrelease⟩ := of_andThen h
  obtain ⟨_, u, hheld, haction⟩ := bind_eq_ok.mp haction
  obtain ⟨rfl, rfl⟩ := ask_eq_ok.mp hheld
  obtain ⟨w'', hreleased, hmarked⟩ :=
    hholds.release (hpasses v v' (hholds.stands hs) hholds.current haction)
  rw [hrelease] at hreleased
  cases hreleased
  exact ⟨made, w₁, v, v', hall, hholds, haction, hmarked⟩

end Build

end ModBuild
