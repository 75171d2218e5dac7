import ModBuild.Proofs.Declaration.Spacing
import ModBuild.Proofs.Text.Spans

/-!
# How files stand in a merged one

A declaration file is cut into lines, and the lines are flattened and ended with
line feeds again. Neither step makes anything longer, so nothing that is changed
in one line can be made up for in another: all the files stand in the merged one
as they are exactly if each of them does, and a file does if its lines end at
line feeds only and if neither its mark nor any of its lines is flattened.
-/

set_option autoImplicit false

namespace ModBuild

namespace Text

def ended (s : Text) : Text := if s = [] ∨ s.getLast? = some '\n' then s else s ++ ['\n']

def Fed (s : Text) : Prop := ∀ c ∈ s, isLineEnd c = true → c = '\n'

theorem ended_cons (c : Char) {s : Text} (h : s ≠ []) : ended (c :: s) = c :: ended s := by
  obtain ⟨d, s, rfl⟩ := List.exists_cons_of_ne_nil h
  simp only [ended, List.getLast?_cons_cons, reduceCtorEq, false_or]
  split <;> rfl

theorem feed_consLine (c : Char) (s : Text) : (consLine c (lines s)).flatMap (· ++ ['\n']) =
    if s = [] then [c, '\n'] else c :: (lines s).flatMap (· ++ ['\n']) := by
  cases s with
  | nil => rfl
  | cons d s =>
    obtain ⟨line, rest, hlines⟩ := List.exists_cons_of_ne_nil (lines_ne_nil d s)
    rw [hlines, if_neg (List.cons_ne_nil d s)]
    rfl

theorem mem_ended {c : Char} {s : Text} (h : c ∈ s) : c ∈ ended s := by
  rw [ended]
  split
  · exact h
  · exact List.mem_append_left _ h

theorem splitOn_feeds {ps : List Text} (h : ∀ p ∈ ps, '\n' ∉ p) :
    splitOn '\n' (ps.flatMap (· ++ ['\n'])) = ps ++ [[]] := by
  induction ps with
  | nil => rfl
  | cons p ps ih =>
    obtain ⟨hp, hps⟩ := List.forall_mem_cons.mp h
    rw [List.flatMap_cons, List.append_assoc, List.singleton_append, splitOn_append_cons hp,
      ih hps, List.cons_append]

theorem feed_lines {s : Text} (h : Fed s) : (lines s).flatMap (· ++ ['\n']) = ended s := by
  fun_induction lines s with
  | case1 => rfl
  | case2 s ih =>
    have hreturn : '\r' = '\n' := h '\r' (by simp) (by decide)
    exact absurd hreturn (by decide)
  | case3 c s hnot hend ih =>
    have hc : c = '\n' := h c (by simp) hend
    rw [List.flatMap_cons, ih fun d hd => h d (by simp [hd]), hc]
    by_cases hs : s = []
    · rw [hs]
      rfl
    · rw [ended_cons _ hs]
      rfl
  | case4 c s hnot hend ih =>
    rw [feed_consLine, ih fun d hd => h d (by simp [hd])]
    split
    · next hs =>
      have hc : c ≠ '\n' := fun hc => hend (by rw [hc]; decide)
      simp [ended, hs, hc]
    · next hs => rw [ended_cons _ hs]

theorem fed_of_feed_lines {s : Text} (h : (lines s).flatMap (· ++ ['\n']) = ended s) : Fed s := by
  intro c hc hend
  have hmem := mem_ended hc
  rw [← h, List.mem_flatMap] at hmem
  obtain ⟨line, hline, hc⟩ := hmem
  rcases List.mem_append.mp hc with hc | hc
  · rw [not_end_of_mem_lines hline c hc] at hend
    cases hend
  · exact List.mem_singleton.mp hc

theorem forall_lines_iff {P : Text → Prop} {s : Text} (h : Fed s) (hP : P []) :
    (∀ line ∈ lines s, P line) ↔ ∀ p ∈ splitOn '\n' s, P p := by
  have hplain : ∀ p ∈ lines s, '\n' ∉ p := fun p hp hfeed => by
    have hend := not_end_of_mem_lines hp '\n' hfeed
    exact absurd hend (by decide)
  have hpieces := splitOn_feeds hplain
  rw [feed_lines h, ended] at hpieces
  have hblank (ps : List Text) : (∀ p ∈ ps ++ [[]], P p) ↔ ∀ p ∈ ps, P p := by
    rw [List.forall_mem_append, List.forall_mem_singleton, and_iff_left hP]
  rw [← hblank, ← hpieces]
  split
  · rfl
  · rw [splitOn_append_sep]
    exact hblank _

theorem length_feed_lines (s : Text) :
    ((lines s).flatMap (· ++ ['\n'])).length ≤ (ended s).length := by
  have hcons (c : Char) (s : Text) : (ended s).length + 1 ≤ (ended (c :: s)).length := by
    by_cases hs : s = []
    · subst hs
      have hmem : c ∈ ended [c] := mem_ended (by simp)
      exact List.length_pos_of_mem hmem
    · rw [ended_cons c hs, List.length_cons]
  fun_induction lines s with
  | case1 => exact Nat.le_refl _
  | case2 s ih =>
    have hfeed := hcons '\n' s
    have hreturn := hcons '\r' ('\n' :: s)
    rw [List.flatMap_cons, List.length_append, List.nil_append, List.length_singleton]
    omega
  | case3 c s hnot hend ih =>
    have hc := hcons c s
    rw [List.flatMap_cons, List.length_append, List.nil_append, List.length_singleton]
    omega
  | case4 c s hnot hend ih =>
    rw [feed_consLine]
    split
    · next hs =>
      have hc : c ≠ '\n' := fun hc => hend (by rw [hc]; decide)
      simp [ended, hs, hc]
    · next hs =>
      rw [ended_cons c hs]
      exact Nat.succ_le_succ ih

end Text

/-! Pieces that are no longer than others and come to as much together are each
as long as the other. -/

section

variable {α β : Type} {f g : α → List β} {xs : List α}

theorem length_flatMap_le (hle : ∀ x ∈ xs, (f x).length ≤ (g x).length) :
    (xs.flatMap f).length ≤ (xs.flatMap g).length := by
  induction xs with
  | nil => exact Nat.le_refl _
  | cons x xs ih =>
    obtain ⟨hx, hxs⟩ := List.forall_mem_cons.mp hle
    rw [List.flatMap_cons, List.flatMap_cons, List.length_append, List.length_append]
    exact Nat.add_le_add hx (ih hxs)

theorem length_of_flatMap (hle : ∀ x ∈ xs, (f x).length ≤ (g x).length)
    (h : (xs.flatMap g).length ≤ (xs.flatMap f).length) :
    ∀ x ∈ xs, (f x).length = (g x).length := by
  induction xs with
  | nil => simp
  | cons x xs ih =>
    obtain ⟨hx, hxs⟩ := List.forall_mem_cons.mp hle
    have hrest := length_flatMap_le hxs
    rw [List.flatMap_cons, List.flatMap_cons, List.length_append, List.length_append] at h
    rw [List.forall_mem_cons]
    exact ⟨by omega, ih hxs (by omega)⟩

theorem eq_of_flatMap (hle : ∀ x ∈ xs, (f x).length ≤ (g x).length)
    (h : xs.flatMap f = xs.flatMap g) : ∀ x ∈ xs, f x = g x := by
  have hlength := length_of_flatMap hle (by rw [h])
  induction xs with
  | nil => simp
  | cons x xs ih =>
    obtain ⟨hx, hxs⟩ := List.forall_mem_cons.mp hlength
    rw [List.flatMap_cons, List.flatMap_cons] at h
    obtain ⟨hhead, htail⟩ := List.append_inj h hx
    rw [List.forall_mem_cons]
    exact ⟨hhead, ih (fun y hy => Nat.le_of_eq (hxs y hy)) htail hxs⟩

end

namespace Declaration

open Text (Fed ended)

theorem flatten_sublist (s : Text) : (flatten s).Sublist s := by
  fun_induction flatten s with
  | case1 s o rest hs ih =>
    obtain ⟨tail, -, rfl, hrest⟩ := scoped_parts hs
    exact (List.Sublist.refl o).append (ih.trans hrest.sublist)
  | case2 => exact List.Sublist.refl _
  | case3 c rest _ ih => exact ih.cons_cons c

theorem flatten_eq_self_iff (s : Text) : flatten s = s ↔ ¬ Mentions Regular s := by
  constructor
  · intro h
    rw [← h]
    exact not_mentions_flatten s
  · exact flatten_unmentioned

theorem unmentioned_of_length {s : Text} (h : (flatten s).length = s.length) :
    ¬ Mentions Regular s :=
  (flatten_eq_self_iff s).mp ((flatten_sublist s).eq_of_length h)

def transcript (file : SourceFile) : Text := fileMark file.path ++ '\n' :: ended file.content

def entered (file : SourceFile) : Text := (flattenedFile file).flatMap (· ++ ['\n'])

/-- The lines of a file end at line feeds only, and nothing is flattened in it or in its mark. -/
structure Intact (file : SourceFile) : Prop where
  fed : Fed file.content
  mark : ¬ Mentions Regular (fileMark file.path)
  lines : ∀ line ∈ Text.splitOn '\n' file.content, ¬ Mentions Regular line

def flatFeed (lines : List Text) : Text := lines.flatMap fun line => flatten line ++ ['\n']

theorem length_flat (line : Text) : (flatten line ++ ['\n']).length ≤ (line ++ ['\n']).length := by
  simpa using (flatten_sublist line).length_le

theorem length_flatFeed (lines : List Text) :
    (flatFeed lines).length ≤ (lines.flatMap (· ++ ['\n'])).length :=
  length_flatMap_le fun line _ => length_flat line

theorem flatFeed_unmentioned {lines : List Text} (h : ∀ line ∈ lines, ¬ Mentions Regular line) :
    flatFeed lines = lines.flatMap (· ++ ['\n']) :=
  List.flatMap_congr fun line hline => by rw [flatten_unmentioned (h line hline)]

theorem unmentioned_of_flatFeed {lines : List Text}
    (h : (lines.flatMap (· ++ ['\n'])).length ≤ (flatFeed lines).length) :
    ∀ line ∈ lines, ¬ Mentions Regular line := by
  intro line hline
  have hlength := length_of_flatMap (fun line _ => length_flat line) h line hline
  exact unmentioned_of_length (by simpa using hlength)

theorem entered_eq (file : SourceFile) : entered file =
    flatten (fileMark file.path) ++ '\n' :: flatFeed (Text.lines file.content) := by
  rw [entered, flattenedFile, List.flatMap_cons, List.flatMap_map, List.append_assoc]
  rfl

theorem length_entered (file : SourceFile) : (entered file).length ≤ (transcript file).length := by
  have hmark := (flatten_sublist (fileMark file.path)).length_le
  have hlines := (length_flatFeed (Text.lines file.content)).trans
    (Text.length_feed_lines file.content)
  rw [entered_eq, transcript, List.length_append, List.length_append, List.length_cons,
    List.length_cons]
  omega

theorem entered_eq_iff (file : SourceFile) : entered file = transcript file ↔ Intact file := by
  have hblank : ¬ Mentions Regular [] := not_mentions_bare (by simp [Bare])
  rw [entered_eq, transcript]
  constructor
  · intro h
    -- nothing got longer, so each part has kept its length
    have hmark := (flatten_sublist (fileMark file.path)).length_le
    have hflat := length_flatFeed (Text.lines file.content)
    have hfeed := Text.length_feed_lines file.content
    have hlength := congrArg List.length h
    rw [List.length_append, List.length_append, List.length_cons, List.length_cons] at hlength
    obtain ⟨-, htail⟩ := List.append_inj h (by omega)
    have hno : ∀ line ∈ Text.lines file.content, ¬ Mentions Regular line :=
      unmentioned_of_flatFeed (by omega)
    have hfed : Fed file.content := by
      apply Text.fed_of_feed_lines
      rw [← (List.cons.inj htail).2, flatFeed_unmentioned hno]
    exact ⟨hfed, unmentioned_of_length (by omega), (Text.forall_lines_iff hfed hblank).mp hno⟩
  · intro h
    have hno := (Text.forall_lines_iff h.fed hblank).mpr h.lines
    rw [flatten_unmentioned h.mark, flatFeed_unmentioned hno, Text.feed_lines h.fed]

def above (lines : List Text) (config : Config) (tokens : Banner.Tokens) : Text :=
  ((preface config tokens).map flatten ++ lines.map flatten ++ [[]]).flatMap (· ++ ['\n'])

def beneath (config : Config) (tokens : Banner.Tokens) : Text :=
  (Banner.render config.footer tokens Banner.typeScriptMark).flatMap (· ++ ['\n'])

theorem merged_entered (lines : List Text) (files : List SourceFile) (config : Config)
    (tokens : Banner.Tokens) : merged lines files config tokens =
      above lines config tokens ++ files.flatMap entered ++ beneath config tokens := by
  rw [merged_lines, Text.join_feed (by simp)]
  simp only [above, beneath, List.flatMap_append, List.flatMap_cons, List.flatMap_nil,
    List.append_nil, List.append_assoc, List.flatMap_assoc]
  rfl

/-- The files of the sources stand in the merged file as they are, each under its mark and in their
order, exactly if there is something to export and each of them ends its lines at line feeds only
and has no scope in front of a specifier, nor its mark one. -/
theorem merge_transcribes_iff (lines : List Text) (files : List SourceFile) (config : Config)
    (tokens : Banner.Tokens) :
    merge? lines files config tokens =
        some (above lines config tokens ++ files.flatMap transcript ++ beneath config tokens) ↔
      (lines ≠ [] ∨ files ≠ []) ∧ ∀ file ∈ files, Intact file := by
  have hexport : nothingToExport lines files = false ↔ lines ≠ [] ∨ files ≠ [] := by
    simp only [nothingToExport, Bool.and_eq_false_iff, List.isEmpty_eq_false_iff]
  rw [merge?, ← hexport]
  cases nothingToExport lines files with
  | true => simp
  | false =>
    rw [if_neg (by simp), Option.some.injEq, merged_entered, List.append_cancel_right_eq,
      List.append_cancel_left_eq, and_iff_right rfl]
    constructor
    · intro h file hfile
      exact (entered_eq_iff file).mp
        (eq_of_flatMap (fun file _ => length_entered file) h file hfile)
    · intro h
      exact List.flatMap_congr fun file hfile => (entered_eq_iff file).mpr (h file hfile)

/-! A comment with a form feed in it, and a directory that is named like a specifier. -/

def typeScriptEnds : List Char := ['\n', '\r', '\u2028', '\u2029']

def samplePage : SourceFile := ⟨"src/shared/a.d.ts".toList, "// one\x0ctwo\n".toList⟩

def sampleFolder : SourceFile := ⟨"src/client/import 'client/x.d.ts".toList, []⟩

def sampleTokens : Banner.Tokens := ⟨"2026".toList, "Note".toList⟩

theorem sample_page_split :
    (∃ t, merge? [] [samplePage] {} sampleTokens = some t ∧ ¬ transcript samplePage <:+: t) ∧
    (∀ c ∈ samplePage.content, c ∈ typeScriptEnds → c = '\n') ∧ Bare samplePage.content ∧
    (∃ t, merge? [] [sampleFolder] {} sampleTokens = some t ∧ ¬ transcript sampleFolder <:+: t) ∧
    sampleFolder.content = [] := by
  refine ⟨⟨_, rfl, ?_⟩, ?_, ?_, ⟨_, rfl, ?_⟩, rfl⟩
  · decide +kernel
  · exact List.forall_iff_forall_mem.mp (by decide)
  · exact List.forall_iff_forall_mem.mp (by decide)
  · decide +kernel

end Declaration

end ModBuild
