import ModBuild.Declaration.Merge
import ModBuild.Proofs.Text.Lines

/-!
# What can be read off a merged file

A merged file is a text of lines. The consolidated lines in it end at the first
empty one behind the header, and the files of the sources stand between that
and the footer, so two merges under one configuration agree exactly if both
parts agree after their specifiers were flattened. A merge adds its pragma to
the lines it is made of, so no file is a merge of its own lines.
-/

set_option autoImplicit false

namespace ModBuild.Declaration

theorem dropScopes_suffix (s : Text) : dropScopes s <:+ s := by
  fun_induction dropScopes s with
  | case1 => exact List.suffix_refl _
  | case2 s rest h ih =>
    obtain ⟨x, -, hx⟩ := List.exists_of_findSome?_eq_some h
    rw [(Text.after?_eq_some_iff _ _ _).1 hx]
    exact ih.trans (List.suffix_append _ _)

theorem scoped_parts {s o rest : Text} (h : scoped? s = some (o, rest)) :
    ∃ tail, opening? s = some (o, tail) ∧ s = o ++ tail ∧ rest <:+ tail := by
  rw [scoped?] at h
  split at h
  · cases h
  · next o' tail ho =>
    obtain ⟨behind, hb, heq⟩ := Option.map_eq_some_iff.mp h
    cases heq
    refine ⟨tail, ho, opening?_append ho, (dropScopes_suffix behind).trans ?_⟩
    obtain ⟨x, -, hx⟩ := List.exists_of_findSome?_eq_some hb
    rw [(Text.after?_eq_some_iff _ _ _).1 hx]
    exact List.suffix_append _ _

theorem opening_quoted {s o rest : Text} (h : opening? s = some (o, rest)) :
    '"' ∈ o ∨ '\'' ∈ o := by
  rw [opening?] at h
  split at h
  · split at h
    · next hq =>
      cases h
      rcases (by simpa using hq : _ ∨ _) with rfl | rfl
      · exact .inl (by simp)
      · exact .inr (by simp)
    · cases h
  · cases h

theorem flatten_mem {s : Text} {c : Char} (h : c ∈ flatten s) : c ∈ s := by
  fun_induction flatten s with
  | case1 s o rest hs ih =>
    obtain ⟨tail, -, rfl, hrest⟩ := scoped_parts hs
    rw [List.mem_append] at h ⊢
    exact h.imp_right fun h => hrest.subset (ih h)
  | case2 => simp at h
  | case3 c' rest _ ih =>
    rw [List.mem_cons] at h ⊢
    exact h.imp_right ih

theorem flatten_ne_nil {s : Text} (h : s ≠ []) : flatten s ≠ [] := by
  rw [flatten.eq_def]
  split
  · next o rest hs =>
    obtain ⟨tail, ho, -⟩ := scoped_parts hs
    rcases opening_quoted ho with hq | hq
    · exact List.append_ne_nil_of_left_ne_nil (List.ne_nil_of_mem hq) _
    · exact List.append_ne_nil_of_left_ne_nil (List.ne_nil_of_mem hq) _
  · split
    · exact absurd rfl h
    · simp

theorem flatten_unquoted {s : Text} (hd : '"' ∉ s) (hs : '\'' ∉ s) : flatten s = s := by
  fun_induction flatten s with
  | case1 s o rest h ih =>
    obtain ⟨tail, ho, rfl, -⟩ := scoped_parts h
    simp only [List.mem_append, not_or] at hd hs
    rcases opening_quoted ho with hq | hq
    · exact absurd hq hd.1
    · exact absurd hq hs.1
  | case2 => rfl
  | case3 c rest _ ih =>
    simp only [List.mem_cons, not_or] at hd hs
    rw [ih hd.2 hs.2]

theorem flatten_pragma : flatten pragma = pragma := flatten_unquoted (by decide) (by decide)

theorem consolidated_plain {s line : Text} (h : line ∈ consolidated s) :
    line ≠ [] ∧ ∀ c ∈ line, Text.isLineEnd c = false := by
  obtain ⟨hlines, hkept⟩ := List.mem_filter.mp h
  exact ⟨by simpa using (Bool.and_eq_true_iff.mp hkept).2, Text.not_end_of_mem_lines hlines⟩

def block (file : SourceFile) : List Text := fileMark file.path :: Text.lines file.content

def carried (lines : List Text) (files : List SourceFile) : List Text × List Text :=
  (lines.map flatten, ((files.flatMap block).map flatten).flatMap (Text.splitOn '\n'))

variable {lines lines' : List Text} {files files' : List SourceFile} {config : Config}
  {tokens : Banner.Tokens}

theorem splitOn_flattened (h : ∀ line ∈ lines, ∀ c ∈ line, Text.isLineEnd c = false) :
    (lines.map flatten).flatMap (Text.splitOn '\n') = lines.map flatten := by
  have hone : ∀ line ∈ lines, Text.splitOn '\n' (flatten line) = [flatten line] := by
    intro line hline
    apply Text.splitOn_eq_singleton
    intro hfeed
    have := h line hline _ (flatten_mem hfeed)
    simp [Text.isLineEnd] at this
  rw [List.flatMap_map, List.flatMap_congr hone]
  simp [List.map_eq_flatMap]

def lead (config : Config) (tokens : Banner.Tokens) : List Text :=
  (([pragma, []] ++ (if Banner.render config.header tokens Banner.typeScriptMark = [] then []
    else Banner.render config.header tokens Banner.typeScriptMark ++ [[]])).map flatten).flatMap
      (Text.splitOn '\n')

def trail (config : Config) (tokens : Banner.Tokens) : List Text :=
  (Banner.render config.footer tokens Banner.typeScriptMark ++ [[]]).flatMap (Text.splitOn '\n')

theorem splitOn_merged (files : List SourceFile) (config : Config) (tokens : Banner.Tokens)
    (hlines : ∀ line ∈ lines, ∀ c ∈ line, Text.isLineEnd c = false) :
    Text.splitOn '\n' (merged lines files config tokens) = lead config tokens ++
      ((carried lines files).1 ++ [] :: ((carried lines files).2 ++ trail config tokens)) := by
  have hblank : Text.splitOn '\n' (flatten []) = [[]] := by
    rw [flatten_unquoted (by simp) (by simp)]
    rfl
  unfold merged
  rw [← Text.join_concat_nil (by simp [mergedBody]), Text.splitOn_join_flatMap (by simp)]
  simp only [mergedBody, List.map_append, List.flatMap_append, List.append_assoc,
    splitOn_flattened hlines]
  simp only [lead, trail, carried, List.map_append, List.flatMap_append, List.append_assoc,
    List.map_cons, List.map_nil, List.flatMap_cons, List.flatMap_nil, hblank]
  rfl

theorem blank_not_mem_carried (h : ∀ line ∈ lines, line ≠ []) :
    [] ∉ (carried lines files).1 := by
  intro hblank
  obtain ⟨line, hline, heq⟩ := List.mem_map.mp hblank
  exact flatten_ne_nil (h line hline) heq

theorem merged_eq_iff {s s' : Text} (hlines : lines = consolidated s)
    (hlines' : lines' = consolidated s') :
    merged lines files config tokens = merged lines' files' config tokens ↔
      carried lines files = carried lines' files' := by
  have hplain : ∀ line ∈ lines, line ≠ [] ∧ ∀ c ∈ line, Text.isLineEnd c = false :=
    fun line h => consolidated_plain (hlines ▸ h)
  have hplain' : ∀ line ∈ lines', line ≠ [] ∧ ∀ c ∈ line, Text.isLineEnd c = false :=
    fun line h => consolidated_plain (hlines' ▸ h)
  have hsplit := splitOn_merged files config tokens fun line h => (hplain line h).2
  have hsplit' := splitOn_merged files' config tokens fun line h => (hplain' line h).2
  have hcut : merged lines files config tokens = merged lines' files' config tokens ↔
      Text.splitOn '\n' (merged lines files config tokens) =
        Text.splitOn '\n' (merged lines' files' config tokens) := by
    constructor
    · exact congrArg _
    · intro h
      rw [← Text.join_splitOn '\n' (merged lines files config tokens), h, Text.join_splitOn]
  rw [hcut, hsplit, hsplit', List.append_cancel_left_eq,
    Text.append_cons_inj (blank_not_mem_carried fun line h => (hplain line h).1)
      (blank_not_mem_carried fun line h => (hplain' line h).1),
    List.append_cancel_right_eq, Prod.ext_iff]

theorem merged_ne_of_own (t : Text) :
    merged (consolidated (Text.unifyBreaks t)) files config tokens ≠ t := by
  intro h
  have hends : pragma.any Text.isLineEnd = false := by decide
  have hpragma : ∀ c ∈ pragma, Text.isLineEnd c = false := by
    simpa only [List.any_eq_false, Bool.not_eq_true] using hends
  have hkept : (consolidated (Text.unifyBreaks t)).count pragma =
      (Text.lines (Text.unifyBreaks t)).count pragma := by
    rw [consolidated, List.count_filter]
    decide
  have hread := Text.count_splitOn_le hpragma (by decide) t
  rw [← Text.lines_unifyBreaks, ← hkept] at hread
  have hsplit := splitOn_merged files config tokens fun line hline =>
    (consolidated_plain (s := Text.unifyBreaks t) hline).2
  have hlead : 0 < (lead config tokens).count pragma := by
    rw [List.count_pos_iff, lead, List.mem_flatMap]
    refine ⟨pragma, ?_, ?_⟩
    · rw [← flatten_pragma]
      exact List.mem_map_of_mem (by simp [flatten_pragma])
    · rw [Text.splitOn_eq_singleton (by decide)]
      simp
  have hmapped : (consolidated (Text.unifyBreaks t)).count pragma ≤
      (carried (consolidated (Text.unifyBreaks t)) files).1.count pragma := by
    have := List.count_le_count_map (f := flatten) (x := pragma)
      (l := consolidated (Text.unifyBreaks t))
    rwa [flatten_pragma] at this
  rw [h] at hsplit
  have hcount := congrArg (List.count pragma) hsplit
  rw [List.count_append, List.count_append] at hcount
  omega

end ModBuild.Declaration
