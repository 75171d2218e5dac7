import ModBuild.Proofs.Declaration.Flattening

/-!
# Specifiers that are left

The language allows any white space, or none, between a keyword and the quote behind it. The
flattening recognises one space character behind a word, and behind a parenthesis the characters
that are blank. A specifier with other space is neither flattened nor changed, and no such
specifier arises, so a line of a merged file has a scope in front of a specifier exactly if there
was one with other space in the line that it was made of.
-/

set_option autoImplicit false

namespace ModBuild.Declaration

open Scope (directories Begins)

/-- What may count as white space: every blank character, and no other one of ASCII. -/
structure WhiteSpace (space : Char → Bool) : Prop where
  blank : ∀ c, Text.isBlank c = true → space c = true
  ascii : ∀ c, c.toNat < 128 → space c = true → Text.isBlank c = true

def Spaced (space : Char → Bool) (_keyword w : Text) : Prop := ∀ c ∈ w, space c = true

def Unusual (space : Char → Bool) (keyword w : Text) : Prop :=
  Spaced space keyword w ∧ ¬ Regular keyword w

section

variable {space : Char → Bool} (hspace : WhiteSpace space)
include hspace

theorem WhiteSpace.not_space {c : Char} (hc : c.toNat < 128) (h : Text.isBlank c = false) :
    space c = false := by
  rw [Bool.eq_false_iff]
  intro hspaced
  rw [hspace.ascii c hc hspaced] at h
  cases h

theorem WhiteSpace.not_quote {c : Char} (h : space c = true) : isQuote c = false := by
  rw [Bool.eq_false_iff]
  intro hquote
  have hc : c = '"' ∨ c = '\'' := by simpa [isQuote] using hquote
  have hno : space c = false := by
    rcases hc with rfl | rfl
    · exact hspace.not_space (by decide) (by decide)
    · exact hspace.not_space (by decide) (by decide)
  rw [h] at hno
  cases hno

theorem WhiteSpace.spaced_bare {k w : Text} (h : Spaced space k w) : Bare w := fun c hc =>
  hspace.not_quote (h c hc)

theorem WhiteSpace.spaced_regular {k w : Text} (h : Regular k w) : Spaced space k w := fun c hc =>
  hspace.blank c (List.all_eq_true.mp h.blank c hc)

theorem WhiteSpace.keyword_end {k : Text} (hk : k ∈ keywords) :
    ∃ c ∈ k.getLast?, space c = false := by
  have h : ∀ k ∈ keywords, k.getLast?.any (fun c => decide (c.toNat < 128) && !Text.isBlank c) =
      true := by
    decide
  obtain ⟨c, hc, hplain⟩ := (Option.any_eq_true _ _).mp (h k hk)
  rw [Bool.and_eq_true, decide_eq_true_eq, Bool.not_eq_true'] at hplain
  exact ⟨c, hc, hspace.not_space hplain.1 hplain.2⟩

theorem WhiteSpace.trailing_space {k w s : Text} (hk : k ∈ keywords) (hw : Spaced space k w)
    (h : k ++ w <:+ s) : s.reverse.takeWhile space = w.reverse := by
  obtain ⟨x, rfl⟩ := h
  obtain ⟨c, hc, hend⟩ := hspace.keyword_end hk
  obtain ⟨init, rfl⟩ := List.getLast?_eq_some_iff.mp hc
  have hall : ∀ c ∈ w.reverse, space c = true := fun c hc => hw c (List.mem_reverse.mp hc)
  have hrev : (x ++ (init ++ [c] ++ w)).reverse =
      w.reverse ++ c :: (init.reverse ++ x.reverse) := by
    simp
  rw [hrev, List.takeWhile_append_of_pos hall, List.takeWhile_cons_of_neg (by simpa using hend),
    List.append_nil]

theorem WhiteSpace.ending_unique {k k' w w' s : Text} (hk : k ∈ keywords) (hk' : k' ∈ keywords)
    (hw : Spaced space k w) (hw' : Spaced space k' w') (h : k ++ w <:+ s) (h' : k' ++ w' <:+ s) :
    k = k' ∧ w = w' := by
  have hapart : ∀ k ∈ keywords, ∀ k' ∈ keywords, k <:+ k' → k = k' := by decide
  have htrail := (hspace.trailing_space hk hw h).symm.trans (hspace.trailing_space hk' hw' h')
  obtain rfl := List.reverse_injective htrail
  refine ⟨?_, rfl⟩
  rcases List.suffix_or_suffix_of_suffix h h' with hin | hin
  · exact hapart k hk k' hk' (List.suffix_append_self_iff.mp hin)
  · exact (hapart k' hk' k hk (List.suffix_append_self_iff.mp hin)).symm

theorem WhiteSpace.opened_unique {s : Text} (h : Opened Regular s) :
    ¬ Opened (Unusual space) s := by
  have hdrop (k w x : Text) (q : Char) : k ++ w <:+ (x ++ (k ++ w ++ [q])).dropLast := by
    rw [← List.append_assoc, List.dropLast_concat]
    exact List.suffix_append x (k ++ w)
  rintro ⟨o', ⟨k', hk', w', q', ⟨hw', hunusual⟩, hq', rfl⟩, x', hx'⟩
  obtain ⟨o, ⟨k, hk, w, q, hw, hq, rfl⟩, x, rfl⟩ := h
  have hend' := hdrop k' w' x' q'
  rw [hx'] at hend'
  obtain ⟨rfl, rfl⟩ := hspace.ending_unique hk hk' (hspace.spaced_regular hw) hw' (hdrop k w x q)
    hend'
  exact hunusual hw

theorem WhiteSpace.opens_level {o : Text} (h : Opens (Spaced space) o) : '/' ∉ o := by
  have hkeyword : ∀ k ∈ keywords, '/' ∉ k := by decide
  obtain ⟨k, hk, w, q, hw, hq, rfl⟩ := h
  simp only [List.mem_append, List.mem_singleton, not_or]
  refine ⟨⟨hkeyword k hk, fun hmem => ?_⟩, ?_⟩
  · have hslash := hspace.not_space (c := '/') (by decide) (by decide)
    rw [hw '/' hmem] at hslash
    cases hslash
  · rintro rfl
    exact absurd hq (by decide)

theorem WhiteSpace.mentions_segment {x : Scope} (hx : x ∈ directories) (b : Text) :
    Mentions (Unusual space) (x.segment ++ b) ↔ Mentions (Unusual space) b := by
  have hbare : ∀ k w, Unusual space k w → Bare w := fun _ _ h => hspace.spaced_bare h.1
  rcases bare_or_quoted b with hb | ⟨a, q, b, ha, hq, rfl⟩
  · have hall : Bare (x.segment ++ b) := (bare_append _ b).mpr ⟨segment_bare hx, hb⟩
    exact iff_of_false (not_mentions_bare hall) (not_mentions_bare hb)
  · have hopened : Opened (Unusual space) (x.segment ++ a ++ [q]) ↔
        Opened (Unusual space) (a ++ [q]) := by
      apply exists_congr
      intro o
      apply and_congr_right
      intro ho
      have hlevel : '/' ∉ o := hspace.opens_level (ho.mono fun _ _ => And.left)
      rw [Scope.segment, List.append_assoc, List.append_assoc, List.singleton_append,
        Text.suffix_append_cons hlevel]
    rw [← List.append_assoc, mentions_quoted hbare ((bare_append _ a).mpr ⟨segment_bare hx, ha⟩) hq,
      mentions_quoted hbare ha hq, hopened]

theorem WhiteSpace.mentions_dropScopes (b : Text) :
    Mentions (Unusual space) b ↔ Mentions (Unusual space) (dropScopes b) := by
  fun_induction dropScopes b with
  | case1 => rfl
  | case2 b rest h ih =>
    obtain ⟨x, hx, rfl⟩ := afterScope_some h
    rw [hspace.mentions_segment hx]
    exact ih

theorem WhiteSpace.mentions_flatten (s : Text) :
    Mentions (Spaced space) (flatten s) ↔ Mentions (Unusual space) s := by
  have hbare : ∀ k w, Spaced space k w → Bare w := fun _ _ => hspace.spaced_bare
  have hbare' : ∀ k w, Unusual space k w → Bare w := fun _ _ h => hspace.spaced_bare h.1
  induction s using quotes_induction with
  | bare s hs =>
    rw [flatten_bare hs]
    exact iff_of_false (not_mentions_bare hs) (not_mentions_bare hs)
  | opened a q b ha hq hopened ih =>
    obtain ⟨-, -, -, hend⟩ := dropScopes_parts b
    rw [(flatten_step ha hq b).1 hopened, mentions_quoted hbare ha hq, mentions_quoted hbare' ha hq,
      begins_flatten, or_iff_right fun h => hend h.2,
      or_iff_right fun h => hspace.opened_unique hopened h.1, hspace.mentions_dropScopes b]
    exact ih
  | plain a q b ha hq hopened ih =>
    have hiff : Opened (Spaced space) (a ++ [q]) ↔ Opened (Unusual space) (a ++ [q]) := by
      constructor
      · rintro ⟨o, ⟨k, hk, w, q', hw, hq', rfl⟩, ho⟩
        have hno : ¬ Regular k w := fun hregular =>
          hopened ⟨_, ⟨k, hk, w, q', hregular, hq', rfl⟩, ho⟩
        exact ⟨_, ⟨k, hk, w, q', ⟨hw, hno⟩, hq', rfl⟩, ho⟩
      · rintro ⟨o, hopens, ho⟩
        exact ⟨o, hopens.mono fun _ _ => And.left, ho⟩
    rw [(flatten_step ha hq b).2 hopened, mentions_quoted hbare ha hq, mentions_quoted hbare' ha hq,
      begins_flatten, hiff]
    exact or_congr_right ih

end

def preface (config : Config) (tokens : Banner.Tokens) : List Text :=
  let header := Banner.render config.header tokens Banner.typeScriptMark
  [pragma, []] ++ (if header = [] then [] else header ++ [[]])

/-- The lines of a merged file that come from a file of the sources, under its mark. -/
def flattenedFile (file : SourceFile) : List Text :=
  flatten (fileMark file.path) :: (Text.lines file.content).map flatten

def gathered (lines : List Text) (files : List SourceFile) : List Text :=
  lines ++ files.flatMap fun file => Text.lines file.content

theorem merged_lines (lines : List Text) (files : List SourceFile) (config : Config)
    (tokens : Banner.Tokens) : merged lines files config tokens =
      Text.join ['\n'] ((preface config tokens).map flatten ++ lines.map flatten ++
        [] :: files.flatMap flattenedFile ++
        Banner.render config.footer tokens Banner.typeScriptMark) ++ ['\n'] := by
  have hblank : flatten [] = [] := flatten_bare (by simp [Bare])
  simp only [merged, mergedBody, preface, List.map_append, List.map_cons, hblank,
    List.map_flatMap, List.append_assoc, List.cons_append, List.nil_append]
  rfl

/-- Every line of a merged file that comes from the compiler or from a file of the sources is a line
of theirs flattened, and it has a specifier with a scope in front exactly if that line had one with
white space that is not recognised. -/
theorem merged_mentions_iff {space : Char → Bool} (hspace : WhiteSpace space) (lines : List Text)
    (files : List SourceFile) (config : Config) (tokens : Banner.Tokens) (t : Text)
    (h : merge? lines files config tokens = some t) :
    t = Text.join ['\n'] ((preface config tokens).map flatten ++ lines.map flatten ++
      [] :: files.flatMap flattenedFile ++
      Banner.render config.footer tokens Banner.typeScriptMark) ++ ['\n'] ∧
    ∀ line ∈ gathered lines files,
      Mentions (Spaced space) (flatten line) ↔ Mentions (Unusual space) line := by
  rw [merge?] at h
  split at h
  · cases h
  · rw [← Option.some.inj h]
    exact ⟨merged_lines lines files config tokens, fun line _ => hspace.mentions_flatten line⟩

/-! Declarations with two spaces behind a keyword. -/

theorem whiteSpace_isBlank : WhiteSpace Text.isBlank := ⟨fun _ h => h, fun _ _ h => h⟩

def sampleLine : Text := "export * from  \"client/x\";".toList

def sampleFile : SourceFile := ⟨"client/note.d.ts".toList, sampleLine ++ ['\n']⟩

theorem sample_gathered : sampleLine ∈ gathered [] [sampleFile] := by decide

theorem sample_unusual : Mentions (Unusual Text.isBlank) sampleLine := by
  have hspaces : Unusual Text.isBlank "from".toList "  ".toList := by
    constructor
    · exact List.all_eq_true.mp (by decide)
    · decide
  have hopens : Opens (Unusual Text.isBlank) "from  \"".toList :=
    ⟨"from".toList, by decide, "  ".toList, '"', hspaces, by decide, rfl⟩
  have hbegins : Begins "client/x\";".toList := ⟨.client, by decide, "x\";".toList, rfl⟩
  exact ⟨"from  \"client/x\";".toList, ⟨"export * ".toList, rfl⟩, _, _, hopens, hbegins, rfl⟩

theorem sample_specifier_left : WhiteSpace Text.isBlank ∧
    ∃ t, merge? [] [sampleFile] {} ⟨"2026".toList, "Note".toList⟩ = some t ∧
      Mentions (Spaced Text.isBlank) (flatten sampleLine) := by
  have hmerged := merged_mentions_iff whiteSpace_isBlank [] [sampleFile] {}
    ⟨"2026".toList, "Note".toList⟩ _ rfl
  exact ⟨whiteSpace_isBlank, _, rfl, (hmerged.2 sampleLine sample_gathered).mpr sample_unusual⟩

theorem sample_specifier_stays : ¬ ∀ (lines : List Text) (files : List SourceFile)
    (config : Config) (tokens : Banner.Tokens) (t : Text),
    merge? lines files config tokens = some t →
    ∀ line ∈ gathered lines files, ¬ Mentions (Spaced Text.isBlank) (flatten line) := by
  intro hall
  have hnone := hall [] [sampleFile] {} ⟨"2026".toList, "Note".toList⟩ _ rfl sampleLine
    sample_gathered
  exact hnone ((whiteSpace_isBlank.mentions_flatten sampleLine).mpr sample_unusual)

end ModBuild.Declaration
