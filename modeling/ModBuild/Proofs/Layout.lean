import ModBuild.Library
import ModBuild.Proofs.Text.Lines
import ModBuild.Proofs.Workspace.Along

/-!
# Where the directories of a project are

Everything a build reads or writes is at names below the root of the project,
and the output is away from everything that it reads. A build may add
directories only in its grounds: the output, the directory of distributions,
and the scope directories of the sources.
-/

set_option autoImplicit false

namespace ModBuild

theorem Path.null_of_print {p : Path} (h : '\x00' ∈ p.print) :
    ∃ s ∈ p.segments, '\x00' ∈ s.text := by
  rw [print] at h
  split at h
  · simp at h
  · rw [List.mem_append] at h
    rcases h with h | h
    · cases hp : p.anchor <;> rw [hp] at h <;> simp [Anchor.text] at h
    · rcases Text.mem_join h with h | ⟨t, ht, h⟩
      · simp at h
      · obtain ⟨s, hs, rfl⟩ := List.mem_map.mp ht
        exact ⟨s, hs, h⟩

theorem Path.null_print {p : Path} {s : Segment} (hs : s ∈ p.segments) (h : '\x00' ∈ s.text) :
    '\x00' ∈ p.print := by
  rw [print, if_neg]
  · rw [List.mem_append]
    exact .inr (Text.mem_of_join (List.mem_map_of_mem hs) h)
  · rintro ⟨-, he⟩
    rw [he] at hs
    simp at hs

theorem Asset.null_along {base : Path} {way : Location} (hb : '\x00' ∉ base.print)
    (hw : ∀ n ∈ way, '\x00' ∉ n.text) : '\x00' ∉ (along base way).print := by
  intro h
  obtain ⟨s, hs, hc⟩ := Path.null_of_print h
  rw [along_eq, List.mem_append] at hs
  rcases hs with hs | hs
  · exact hb (Path.null_print hs hc)
  · obtain ⟨n, hn, rfl⟩ := List.mem_map.mp hs
    exact hw n hn hc

theorem Asset.null_of_longer {base : Path} {a b : Location}
    (h : '\x00' ∉ (along base (a ++ b)).print) : '\x00' ∉ (along base a).print := by
  intro hc
  obtain ⟨s, hs, hc⟩ := Path.null_of_print hc
  apply h
  apply Path.null_print _ hc
  rw [along_eq, List.mem_append] at hs ⊢
  apply hs.imp_right
  intro hs
  rw [List.map_append, List.mem_append]
  exact .inl hs

def Scope.name (s : Scope) : Name := ⟨s.text, by cases s <;> decide⟩

namespace Layout

open Asset (along div_name along_along location_along)

variable {layout : Layout} {current : Location}

def mediaName : Name := ⟨"media".toList, by decide⟩

def luaName : Name := ⟨"lua".toList, by decide⟩

def sourceName : Name := ⟨"src".toList, by decide⟩

def distName : Name := ⟨"dist".toList, by decide⟩

def typingsName : Name := ⟨"typings".toList, by decide⟩

def scriptsName : Name := ⟨"scripts".toList, by decide⟩

theorem source_eq (l : Layout) : l.source = along l.root [sourceName] :=
  div_name l.root sourceName

theorem output_eq (l : Layout) : l.output = along l.root [mediaName, luaName] := by
  have hm : l.root / "media".toList = along l.root [mediaName] := div_name l.root mediaName
  rw [output, hm]
  have hl := div_name (along l.root [mediaName]) luaName
  rw [along_along] at hl
  exact hl

theorem dist_eq (l : Layout) : l.dist = along l.root [distName] := div_name l.root distName

theorem typings_eq (l : Layout) : l.typings = along l.root [typingsName] :=
  div_name l.root typingsName

theorem scripts_eq (l : Layout) : l.scripts = along l.root [scriptsName] :=
  div_name l.root scriptsName

theorem sourceDirectory_eq (l : Layout) (s : Scope) :
    l.sourceDirectory s = along l.source [s.name] := div_name l.source s.name

theorem outputDirectory_eq (l : Layout) (s : Scope) :
    l.outputDirectory s = along l.output [s.name] := div_name l.output s.name

theorem source_along (l : Layout) (way : Location) :
    along l.source way = along l.root (sourceName :: way) := by
  rw [source_eq, along_along]
  rfl

theorem output_along (l : Layout) (way : Location) :
    along l.output way = along l.root (mediaName :: luaName :: way) := by
  rw [output_eq, along_along]
  rfl

theorem output_location (l : Layout) (current : Location) :
    l.output.location current = l.root.location current ++ [mediaName, luaName] := by
  rw [output_eq, location_along]

theorem source_location (l : Layout) (current : Location) :
    l.source.location current = l.root.location current ++ [sourceName] := by
  rw [source_eq, location_along]

def Inside (layout : Layout) (current l : Location) : Prop := layout.output.location current <+: l

theorem inside_along (layout : Layout) (current way : Location) :
    layout.Inside current ((along layout.output way).location current) := by
  rw [location_along]
  exact List.prefix_append _ _

theorem not_inside {n : Name} (hn : n ≠ mediaName) (way : Location) :
    ¬ layout.Inside current (layout.root.location current ++ n :: way) := by
  intro h
  rw [Inside, output_location, List.prefix_append_right_inj, List.cons_prefix_cons] at h
  exact hn h.1.symm

def Ground (layout : Layout) (current l : Location) : Prop :=
  layout.Inside current l ∨ l = layout.root.location current ++ [mediaName] ∨
    l = layout.dist.location current ∨ l = layout.source.location current ∨
    ∃ s, l = (layout.sourceDirectory s).location current

theorem ground_of_output {way l : Location}
    (h : Action.OnWay (layout.root.location current) (mediaName :: luaName :: way) l) :
    layout.Ground current l := by
  obtain ⟨a, ha, hp, rfl⟩ := h
  match a, ha with
  | [n], _ =>
    rw [List.cons_prefix_cons] at hp
    rw [hp.1]
    exact .inr (.inl rfl)
  | n :: m :: a, _ =>
    rw [List.cons_prefix_cons, List.cons_prefix_cons] at hp
    rw [hp.1, hp.2.1]
    left
    rw [Inside, output_location, List.prefix_append_right_inj]
    exact ⟨a, rfl⟩

theorem ground_of_source {s : Scope} {l : Location}
    (h : Action.OnWay (layout.root.location current) [sourceName, s.name] l) :
    layout.Ground current l := by
  obtain ⟨a, ha, hp, rfl⟩ := h
  match a, ha with
  | [n], _ =>
    rw [List.cons_prefix_cons] at hp
    rw [hp.1, ← location_along, ← source_eq]
    exact .inr (.inr (.inr (.inl rfl)))
  | n :: m :: a, _ =>
    rw [List.cons_prefix_cons, List.cons_prefix_cons] at hp
    obtain ⟨rfl, rfl, hp⟩ := hp
    rw [List.prefix_nil.mp hp, ← location_along, ← source_along, ← sourceDirectory_eq]
    exact .inr (.inr (.inr (.inr ⟨s, rfl⟩)))

theorem ground_of_dist {l : Location}
    (h : Action.OnWay (layout.root.location current) [distName] l) : layout.Ground current l := by
  obtain ⟨a, ha, hp, rfl⟩ := h
  obtain rfl : a = [distName] := (List.prefix_cons_iff.mp hp).elim
    (fun e => absurd e ha) fun ⟨t, e, ht⟩ => by rw [e, List.prefix_nil.mp ht]
  rw [← location_along, ← dist_eq]
  exact .inr (.inr (.inl rfl))

theorem not_ground {n m : Name} (hm : n ≠ mediaName) (hs : n ≠ sourceName) (way : Location) :
    ¬ layout.Ground current (layout.root.location current ++ n :: m :: way) := by
  rintro (h | h | h | h | ⟨s, h⟩)
  · exact not_inside hm (m :: way) h
  · simp at h
  · rw [dist_eq, location_along] at h
    simp at h
  · rw [source_location] at h
    simp at h
  · rw [sourceDirectory_eq, source_along, location_along, List.append_cancel_left_eq] at h
    exact hs (List.cons.inj h).1

structure Spares (layout : Layout) (w w' : Workspace) : Prop where
  current : w'.current = w.current
  file : ∀ l, ¬ layout.Inside w.current l → w'.tree.file? l = w.tree.file? l
  entry : ∀ l, ¬ layout.Ground w.current l → w'.tree.get? l = w.tree.get? l

theorem Spares.trans {w w' w'' : Workspace} (h : layout.Spares w w') (h' : layout.Spares w' w'') :
    layout.Spares w w'' where
  current := h'.current.trans h.current
  file l hl := (h'.file l (by rwa [h.current])).trans (h.file l hl)
  entry l hl := (h'.entry l (by rwa [h.current])).trans (h.entry l hl)

theorem source_not_inside (layout : Layout) (current way : Location) :
    ¬ layout.Inside current ((along layout.source way).location current) := by
  rw [source_along, location_along]
  exact not_inside (by decide) _

theorem Spares.isFile_source {w w' : Workspace} (h : layout.Spares w w')
    (hs : w.Stands layout.root) (hs' : w'.Stands layout.root) (way : Location) :
    w'.isFile (along layout.source way) = .ok true ↔
      w.isFile (along layout.source way) = .ok true := by
  have hfile := h.file _ (source_not_inside layout w.current way)
  rw [source_along, location_along] at hfile
  rw [source_along]
  constructor
  · exact Workspace.isFile_along_of_file hs hs' h.current hfile.symm
  · rw [← h.current] at hfile
    exact Workspace.isFile_along_of_file hs' hs h.current.symm hfile

end Layout

end ModBuild
