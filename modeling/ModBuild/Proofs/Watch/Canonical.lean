import ModBuild.Proofs.Watch.Response

/-!
# Spellings of a path

The path of an event may have backslashes, doubled slashes, single dots and steps
up, and it may be relative. What it is mapped to is told by its one normal
spelling: the absolute path that is left when all of that is carried out in the
text. Only a null character is not a matter of spelling.
-/

set_option autoImplicit false

namespace ModBuild

namespace Path

def tread (names : List Text) (piece : Text) : List Text :=
  if piece = [] ∨ piece = ['.'] then names
  else if piece = ['.', '.'] then names.dropLast
  else names ++ [piece]

def trail (t : Text) : List Text := (Text.splitOn '/' t).foldl tread []

/-- The absolute path that is written with the names that a path comes to and with
nothing else. -/
def normalize (t : Text) : Text := '/' :: Text.join ['/'] (trail t)

def taken (base t : Text) : Text := if t.head? = some '/' then t else base ++ '/' :: t

theorem settle_trail {pieces : List Text} (h : ∀ p ∈ pieces, '/' ∉ p) (l : Location) :
    (settle l (pieces.filterMap Segment.ofText?)).map Name.text =
      pieces.foldl tread (l.map Name.text) := by
  induction pieces generalizing l with
  | nil => rfl
  | cons p pieces ih =>
    obtain ⟨hp, hrest⟩ := List.forall_mem_cons.mp h
    rw [List.foldl_cons, tread]
    by_cases hup : p = ['.', '.']
    · subst hup
      rw [List.filterMap_cons_some (show Segment.ofText? ['.', '.'] = some .up from rfl), settle,
        ih hrest, List.map_dropLast]
      rfl
    · by_cases hskip : p = [] ∨ p = ['.']
      · have hnone : Segment.ofText? p = none := by
          rcases hskip with rfl | rfl <;> rfl
        rw [List.filterMap_cons_none hnone, if_pos hskip, ih hrest]
      · have hvalid : Name.Valid p := ⟨fun h => hskip (.inl h), fun h => hskip (.inr h), hup, hp⟩
        have hsome : Segment.ofText? p = some (.name ⟨p, hvalid⟩) := by
          rw [Segment.ofText?, if_neg hup, dif_pos hvalid]
        rw [List.filterMap_cons_some hsome, if_neg hskip, if_neg hup, settle, ih hrest,
          List.map_append]
        rfl

theorem settle_parse (l : Location) (t : Text) :
    (settle l (parse t).segments).map Name.text =
      (Text.splitOn '/' t).foldl tread (l.map Name.text) :=
  settle_trail (fun _ hp => Text.not_mem_of_mem_splitOn hp) l

theorem isAbsolute_parse (t : Text) : (parse t).isAbsolute = true ↔ t.head? = some '/' := by
  cases t with
  | nil => simp [parse, isAbsolute, Anchor.ofText]
  | cons c t =>
    rw [parse, isAbsolute, List.head?_cons, Option.some_inj]
    by_cases hc : c = '/'
    · rw [hc, Anchor.ofText.eq_def]
      split <;> simp_all
    · rw [Anchor.ofText.eq_def]
      split <;> simp_all

theorem trail_ofLocation (l : Location) : trail (ofLocation l).print = l.map Name.text := by
  have h := settle_parse [] (ofLocation l).print
  rw [parse_print] at h
  rw [trail, ← List.map_nil (f := Name.text), ← h, ofLocation]
  simp [settle_names]

theorem trail_append (a b : Text) :
    trail (a ++ '/' :: b) = (Text.splitOn '/' b).foldl tread (trail a) := by
  rw [trail, Text.splitOn_append_sep, List.foldl_append, trail]

theorem trail_taken (base t : Text) : trail (taken base t) =
    if (parse t).isAbsolute then trail t else (Text.splitOn '/' t).foldl tread (trail base) := by
  by_cases h : (parse t).isAbsolute = true
  · rw [if_pos h, taken, if_pos ((isAbsolute_parse t).mp h)]
  · rw [if_neg h, taken, if_neg (mt (isAbsolute_parse t).mpr h), trail_append]

theorem location_parse (current : Location) (t : Text) :
    ((parse t).location current).map Name.text = trail (taken (ofLocation current).print t) := by
  rw [trail_taken, location]
  split
  · exact settle_parse [] t
  · rw [settle_parse, trail_ofLocation]

theorem name_of_mem_trail {t p : Text} (hp : p ∈ trail t) : Name.Valid p := by
  have h := settle_parse [] t
  rw [List.map_nil, ← trail] at h
  rw [← h, List.mem_map] at hp
  obtain ⟨n, -, rfl⟩ := hp
  exact n.valid

theorem normalize_eq_iff {t u p : Text} (hne : trail u ≠ []) :
    normalize t = normalize u ++ '/' :: p ↔ trail t = trail u ++ Text.splitOn '/' p := by
  have hslash (v : Text) : ∀ q ∈ trail v, '/' ∉ q := fun q hq => (name_of_mem_trail hq).2.2.2
  have hcut (v : Text) (hv : trail v ≠ []) : Text.splitOn '/' (normalize v) = [] :: trail v := by
    rw [normalize, Text.splitOn, if_pos rfl, Text.splitOn_join hv (hslash v)]
  constructor
  · intro h
    have hpieces := congrArg (Text.splitOn '/') h
    rw [Text.splitOn_append_sep, hcut u hne] at hpieces
    by_cases ht : trail t = []
    · have hlength := congrArg List.length hpieces
      have hp := List.length_pos_iff.mpr (Text.splitOn_ne_nil '/' p)
      have hu := List.length_pos_iff.mpr hne
      rw [normalize, ht] at hlength
      simp [Text.join, Text.splitOn] at hlength
      omega
    · rw [hcut t ht] at hpieces
      exact (List.cons.inj hpieces).2
  · intro h
    have ht : trail t ≠ [] := by
      rw [h]
      exact List.append_ne_nil_of_left_ne_nil hne _
    have hjoin : Text.join ['/'] (Text.splitOn '/' (normalize t)) =
        Text.join ['/'] (Text.splitOn '/' (normalize u ++ '/' :: p)) := by
      rw [Text.splitOn_append_sep, hcut t ht, hcut u hne, h]
      rfl
    rwa [Text.join_splitOn, Text.join_splitOn] at hjoin

theorem null_parse (t : Text) : (∃ s ∈ (parse t).segments, '\x00' ∈ s.text) ↔ '\x00' ∈ t := by
  constructor
  · rintro ⟨s, hs, hnull⟩
    obtain ⟨piece, hpiece, hsome⟩ := List.mem_filterMap.mp hs
    have hpieceText : s.text = piece := by
      rw [Segment.ofText?] at hsome
      split at hsome
      · next h => cases hsome; exact h.symm
      · split at hsome
        · cases hsome; rfl
        · cases hsome
    rw [← Text.join_splitOn '/' t]
    exact Text.mem_of_join hpiece (hpieceText ▸ hnull)
  · intro h
    rw [← Text.join_splitOn '/' t] at h
    rcases Text.mem_join h with h | ⟨piece, hpiece, hnull⟩
    · simp at h
    · have hvalid : Name.Valid piece := by
        refine ⟨?_, ?_, ?_, Text.not_mem_of_mem_splitOn hpiece⟩
        · rintro rfl
          simp at hnull
        · rintro rfl
          simp at hnull
        · rintro rfl
          simp at hnull
      refine ⟨.name ⟨piece, hvalid⟩, List.mem_filterMap.mpr ⟨piece, hpiece, ?_⟩, hnull⟩
      rw [Segment.ofText?, if_neg hvalid.2.2.1, dif_pos hvalid]

theorem null_print_iff (p : Path) : '\x00' ∈ p.print ↔ ∃ s ∈ p.segments, '\x00' ∈ s.text :=
  ⟨null_of_print, fun ⟨_, hs, h⟩ => null_print hs h⟩

end Path

namespace Watch

open ModBuild.Path (trail normalize taken)

/-- The path below the sources that the path of an event is mapped to. -/
def sourcePath? (root : Text) (current : Location) (path : Text) : Option Text :=
  (wayOf? ⟨Path.parse root⟩ current path).map written

def rootSpelling (root : Text) (current : Location) : Text :=
  taken (Path.ofLocation current).print root

def sourceSpelling (root : Text) (current : Location) : Text :=
  normalize (rootSpelling root current ++ "/src".toList)

/-- The normal spelling of the path of an event: with slashes for backslashes, and
taken from the root of the project. -/
def eventSpelling (root : Text) (current : Location) (path : Text) : Text :=
  normalize (taken (rootSpelling root current) (Emission.slashed path))

section

variable {root path : Text} {current : Location}

theorem location_event (root : Text) (current : Location) (path : Text) :
    ((eventPath ⟨Path.parse root⟩ path).location current).map Name.text =
      trail (taken (rootSpelling root current) (Emission.slashed path)) := by
  rw [Path.trail_taken, eventPath]
  dsimp only
  split
  · next h =>
    rw [Path.location, if_pos h]
    exact Path.settle_parse [] _
  · next h =>
    have happend :
        ((Path.parse root).append (Path.parse (Emission.slashed path))).location current =
          Path.settle ((Path.parse root).location current)
            (Path.parse (Emission.slashed path)).segments := by
      rw [Path.append, if_neg h, Path.location, Path.settle_append]
      rfl
    rw [happend, Path.settle_parse, Path.location_parse, rootSpelling]

theorem trail_source (root : Text) (current : Location) :
    trail (rootSpelling root current ++ "/src".toList) =
      trail (rootSpelling root current) ++ ["src".toList] :=
  Path.trail_append (rootSpelling root current) "src".toList

theorem location_source (root : Text) (current : Location) :
    ((Layout.mk (Path.parse root)).source.location current).map Name.text =
      trail (rootSpelling root current ++ "/src".toList) := by
  rw [Layout.source_location, List.map_append, Path.location_parse, trail_source, rootSpelling]
  rfl

theorem null_event : '\x00' ∈ (eventPath ⟨Path.parse root⟩ path).print ++
      (Layout.mk (Path.parse root)).source.print ↔ '\x00' ∈ root ∨ '\x00' ∈ path := by
  have hslashed : '\x00' ∈ Emission.slashed path ↔ '\x00' ∈ path := by
    rw [Emission.slashed, List.mem_map]
    constructor
    · rintro ⟨c, hc, h⟩
      split at h
      · cases h
      · rwa [← h]
    · exact fun h => ⟨_, h, by decide⟩
  have hsource : '\x00' ∈ (Layout.mk (Path.parse root)).source.print ↔ '\x00' ∈ root := by
    rw [Path.null_print_iff, Layout.source_eq, Asset.segments_along, ← Path.null_parse root]
    simp only [List.mem_append, or_and_right, exists_or]
    exact or_iff_left (by decide)
  rw [List.mem_append, hsource, Path.null_print_iff, eventPath]
  dsimp only
  split
  · rw [Path.null_parse, hslashed, or_comm]
  · next h =>
    rw [Path.append, if_neg h]
    simp only [List.mem_append, or_and_right, exists_or]
    rw [Path.null_parse, Path.null_parse, hslashed]
    tauto

theorem wayOf_iff {layout : Layout} {way : Location} : wayOf? layout current path = some way ↔
    '\x00' ∉ (eventPath layout path).print ++ layout.source.print ∧ way ≠ [] ∧
      (eventPath layout path).location current = layout.source.location current ++ way := by
  constructor
  · intro h
    refine ⟨fun hnull => ?_, wayOf_ok h⟩
    unfold wayOf? at h
    change (if '\x00' ∈ (eventPath layout path).print ++ layout.source.print then none
      else _) = some way at h
    rw [if_pos hnull] at h
    cases h
  · rintro ⟨hnull, hne, hlocation⟩
    obtain ⟨n, rest, rfl⟩ := List.exists_cons_of_ne_nil hne
    have hrelative : Tree.relative? (layout.source.location current)
        ((eventPath layout path).location current) = some (n :: rest) := by
      rw [hlocation, Tree.relative?,
        if_pos (List.isPrefixOf_iff_prefix.mpr (List.prefix_append _ _)), List.drop_left]
    unfold wayOf?
    change (if '\x00' ∈ (eventPath layout path).print ++ layout.source.print then none
      else _) = some (n :: rest)
    rw [if_neg hnull]
    split
    · next hrel => exact hrel.symm.trans hrelative
    · next hno => exact absurd hrelative (hno n rest)

theorem written_eq {way : Location} (h : way ≠ []) :
    written way = Text.join ['/'] (way.map Name.text) := by
  rw [written, Path.print, if_neg (by simpa using h), List.map_map]
  rfl

theorem splitOn_written {way : Location} (h : way ≠ []) :
    Text.splitOn '/' (written way) = way.map Name.text := by
  rw [written_eq h, Text.splitOn_join (by simpa using h)]
  intro t ht
  obtain ⟨n, -, rfl⟩ := List.mem_map.mp ht
  exact n.valid.2.2.2

theorem eventSpelling_iff {p : Text} :
    eventSpelling root current path = sourceSpelling root current ++ '/' :: p ↔
      ((eventPath ⟨Path.parse root⟩ path).location current).map Name.text =
        ((Layout.mk (Path.parse root)).source.location current).map Name.text ++
          Text.splitOn '/' p := by
  rw [eventSpelling, sourceSpelling, Path.normalize_eq_iff (by rw [trail_source]; simp),
    location_event, location_source]

theorem sourcePath_iff {p : Text} : sourcePath? root current path = some p ↔
    '\x00' ∉ root ∧ '\x00' ∉ path ∧ p ≠ [] ∧
      eventSpelling root current path = sourceSpelling root current ++ '/' :: p := by
  rw [sourcePath?, Option.map_eq_some_iff, eventSpelling_iff, ← and_assoc, ← not_or]
  constructor
  · rintro ⟨way, hway, rfl⟩
    obtain ⟨hnull, hne, hlocation⟩ := wayOf_iff.mp hway
    refine ⟨mt null_event.mpr hnull, ?_, ?_⟩
    · intro hempty
      have hcut := splitOn_written hne
      rw [hempty] at hcut
      have hmem : ([] : Text) ∈ way.map Name.text := by
        rw [← hcut]
        exact List.mem_singleton_self _
      obtain ⟨n, -, hn⟩ := List.mem_map.mp hmem
      exact n.valid.1 hn
    · rw [hlocation, List.map_append, splitOn_written hne]
  · rintro ⟨hnull, -, hlocation⟩
    obtain ⟨source, way, hsplit, hsource, hway⟩ := List.map_eq_append_iff.mp hlocation
    obtain rfl := List.map_injective_iff.mpr (fun _ _ => Name.text_injective) hsource
    have hne : way ≠ [] := by
      rintro rfl
      exact Text.splitOn_ne_nil '/' p hway.symm
    refine ⟨way, wayOf_iff.mpr ⟨mt null_event.mp hnull, hne, hsplit⟩, ?_⟩
    rw [written_eq hne, hway, Text.join_splitOn]

theorem sourcePath_pieces {p piece : Text} (h : sourcePath? root current path = some p)
    (hpiece : piece ∈ Text.splitOn '/' p) : Name.Valid piece := by
  obtain ⟨way, hway, rfl⟩ := Option.map_eq_some_iff.mp h
  rw [splitOn_written (wayOf_ok hway).1] at hpiece
  obtain ⟨n, -, rfl⟩ := List.mem_map.mp hpiece
  exact n.valid

end

/-- Without null characters, a path is mapped to what follows the sources in its
normal spelling, if anything does: that has neither empty pieces nor dots for
pieces, and paths with one normal spelling are mapped alike. With a null character
in it, or in the root of the project, it is mapped to nothing. -/
theorem sourcePath_canonical (root : Text) (current : Location) (path : Text) :
    (∀ p, sourcePath? root current path = some p ↔
      '\x00' ∉ root ∧ '\x00' ∉ path ∧ p ≠ [] ∧
        eventSpelling root current path = sourceSpelling root current ++ '/' :: p) ∧
    (∀ p, sourcePath? root current path = some p →
      ∀ piece ∈ Text.splitOn '/' p, piece ≠ [] ∧ piece ≠ ['.'] ∧ piece ≠ ['.', '.']) ∧
    ∀ path', '\x00' ∉ path → '\x00' ∉ path' →
      eventSpelling root current path' = eventSpelling root current path →
      sourcePath? root current path' = sourcePath? root current path := by
  refine ⟨fun p => sourcePath_iff, fun p h piece hpiece => ?_, fun path' hnull hnull' hsame => ?_⟩
  · obtain ⟨hne, hdot, hup, -⟩ := sourcePath_pieces h hpiece
    exact ⟨hne, hdot, hup⟩
  · refine Option.ext fun p => ?_
    rw [sourcePath_iff, sourcePath_iff, hsame]
    simp only [hnull, hnull']

/-- A null character is in the way although the path is below the sources, and
although it is only passed on a detour. -/
theorem sample_null_unmapped :
    eventSpelling ['.'] [] "src/a\x00b".toList =
      sourceSpelling ['.'] [] ++ '/' :: "a\x00b".toList ∧
    sourcePath? ['.'] [] "src/a\x00b".toList = none ∧
    eventSpelling ['.'] [] "src\\.//\x00/../a.lua".toList =
      eventSpelling ['.'] [] "src/a.lua".toList ∧
    sourcePath? ['.'] [] "src\\.//\x00/../a.lua".toList ≠
      sourcePath? ['.'] [] "src/a.lua".toList := by
  decide +kernel

end Watch

end ModBuild
