import ModBuild.Proofs.Banner
import ModBuild.Proofs.Build.Emitted

/-!
# Which modules stay as they are

Libraries of the host are known by the ends of their paths. A file name that only ends like that of
a library has the same end, and so has a directory whose name ends like that of the shared scope.
What is exempt is told here by whole names: the libraries themselves, and whatever is taken for one.
-/

set_option autoImplicit false

namespace ModBuild

theorem Text.splitOn_lower (s : Text) : splitOn '/' (lower s) = (splitOn '/' s).map lower := by
  have hslash (c : Char) : c.toLower = '/' ↔ c = '/' :=
    ⟨eq_of_toLower (by decide), fun h => by rw [h]; decide⟩
  induction s with
  | nil => rfl
  | cons c s ih =>
    rw [lower, List.map_cons, ← lower, splitOn, splitOn, ih]
    simp only [hslash]
    split
    · rfl
    · cases splitOn '/' s with
      | nil => rfl
      | cons p ps => rfl

namespace Banner

open Text (lower)

def hostFiles : List Text := ["zomboid.lua".toList, "events.lua".toList]

def caseless (p : Path) : List Text := p.segments.map fun s => lower s.text

def Shipped (p : Path) : Prop := ∃ file ∈ hostFiles, [Scope.shared.text, file] <:+ caseless p

/-- The file is named like one that the host ships, and its directory is not that of the shared
scope, but is named so at the end. -/
def ShippedLike (p : Path) : Prop :=
  ∃ file ∈ hostFiles, ∃ front, front ≠ [] ∧ [front ++ Scope.shared.text, file] <:+ caseless p

theorem pieces_print (p : Path) : ∃ blanks, (∀ b ∈ blanks, b.length ≤ 1) ∧
    Text.splitOn '/' (lower p.print) = blanks ++ caseless p := by
  obtain ⟨anchor, ss⟩ := p
  rw [Text.splitOn_lower, caseless]
  cases ss with
  | nil =>
    refine ⟨_, ?_, (List.append_nil _).symm⟩
    cases anchor <;> decide
  | cons s ss =>
    have hlevel : ∀ t ∈ (s :: ss).map Segment.text, '/' ∉ t := by
      simp [Segment.slash_not_mem_text]
    have hjoin := Text.splitOn_join (List.cons_ne_nil _ _) hlevel
    have hslash (t : Text) : Text.splitOn '/' ('/' :: t) = [] :: Text.splitOn '/' t := if_pos rfl
    rw [Path.print, if_neg fun h => List.cons_ne_nil _ _ h.2]
    cases anchor with
    | relative => exact ⟨[], by simp, by simp [Anchor.text, hjoin]⟩
    | root => exact ⟨[[]], by simp, by simp [Anchor.text, hslash, hjoin]; rfl⟩
    | doubleRoot => exact ⟨[[], []], by simp, by simp [Anchor.text, hslash, hjoin]; rfl⟩

/-- A written path ends with a text exactly if its last segments are the pieces of that text, with
more in front of the first of them. -/
theorem suffix_print {pat t : Text} {ts : List Text} (hpat : Text.splitOn '/' pat = t :: ts)
    (hlong : ∀ x ∈ t :: ts, 1 < x.length) (p : Path) :
    pat <:+ lower p.print ↔ ∃ front, (front ++ t) :: ts <:+ caseless p := by
  obtain ⟨blanks, hblanks, hpieces⟩ := pieces_print p
  rw [Text.suffix_iff_pieces hpat, hpieces]
  refine exists_congr fun front => Text.suffix_append_iff fun x hmem hx => ?_
  have hshort := hblanks x (List.mem_of_getLast? hmem)
  rcases List.mem_cons.mp hx with rfl | hx
  · have ht := hlong t List.mem_cons_self
    rw [List.length_append] at hshort
    omega
  · have hx := hlong x (List.mem_cons_of_mem t hx)
    omega

theorem suffix_name {ext : Text} (hlevel : '/' ∉ ext) (hlong : 1 < ext.length) (p : Path) :
    ext <:+ lower p.print ↔ ext <:+ lower p.name := by
  rw [suffix_print (Text.splitOn_eq_singleton hlevel) (by simpa using hlong)]
  obtain ⟨anchor, ss⟩ := p
  rcases List.eq_nil_or_concat' ss with rfl | ⟨ss, s, rfl⟩
  · have hnil : ext ≠ [] := List.length_pos_iff.mp (by omega)
    simp [caseless, Path.name, lower, hnil]
  · rw [caseless, Path.name, List.map_append, List.getLast?_concat]
    exact Text.suffix_last

theorem untouched_iff (p : Path) :
    untouched.any (fun name => Text.endsWith name (lower p.print)) = true ↔
      Shipped p ∨ ShippedLike p := by
  have hpieces : ∀ file ∈ hostFiles, Text.splitOn '/' (Scope.shared.text ++ '/' :: file) =
      [Scope.shared.text, file] ∧ ∀ x ∈ [Scope.shared.text, file], 1 < x.length := by decide
  have huntouched : untouched = hostFiles.map fun file => Scope.shared.text ++ '/' :: file := rfl
  rw [huntouched, List.any_map, List.any_eq_true]
  constructor
  · rintro ⟨file, hfile, hends⟩
    obtain ⟨hcut, hlong⟩ := hpieces file hfile
    obtain ⟨front, h⟩ := (suffix_print hcut hlong p).mp ((Text.endsWith_iff _ _).mp hends)
    by_cases hfront : front = []
    · subst hfront
      exact .inl ⟨file, hfile, h⟩
    · exact .inr ⟨file, hfile, front, hfront, h⟩
  · have hends {file front : Text} (hfile : file ∈ hostFiles)
        (h : [front ++ Scope.shared.text, file] <:+ caseless p) :
        Text.endsWith (Scope.shared.text ++ '/' :: file) (lower p.print) = true := by
      obtain ⟨hcut, hlong⟩ := hpieces file hfile
      exact (Text.endsWith_iff _ _).mpr ((suffix_print hcut hlong p).mpr ⟨front, h⟩)
    rintro (⟨file, hfile, h⟩ | ⟨file, hfile, front, -, h⟩)
    · have hwhole : [[] ++ Scope.shared.text, file] <:+ caseless p := h
      exact ⟨file, hfile, hends hfile hwhole⟩
    · exact ⟨file, hfile, hends hfile h⟩

theorem applies_iff (p : Path) : applies p = true ↔
    ".lua".toList <:+ lower p.name ∧ ¬ Shipped p ∧ ¬ ShippedLike p := by
  rw [applies, Bool.and_eq_true, Text.endsWith_iff, suffix_name (by decide) (by decide),
    Bool.not_eq_true', ← not_or, ← untouched_iff, Bool.not_eq_true]

theorem shipped_unlike {p : Path} (h : Shipped p) : ¬ ShippedLike p := by
  obtain ⟨file, -, init, h⟩ := h
  rintro ⟨file', -, front, hfront, init', h'⟩
  have heq := List.append_inj_right' (h.trans h'.symm) rfl
  have hdirectory : [] ++ Scope.shared.text = front ++ Scope.shared.text := (List.cons.inj heq).1
  exact hfront (List.append_cancel_right hdirectory).symm

theorem lua_of_untouched {p : Path} (h : Shipped p ∨ ShippedLike p) :
    ".lua".toList <:+ lower p.name := by
  have hlua : ∀ name ∈ untouched, ".lua".toList <:+ name := by decide
  obtain ⟨name, hname, hends⟩ := List.any_eq_true.mp ((untouched_iff p).mpr h)
  rw [← suffix_name (by decide) (by decide)]
  exact (hlua name hname).trans ((Text.endsWith_iff _ _).mp hends)

theorem refused_shipped_iff (p : Path) :
    (".lua".toList <:+ lower p.name → applies p = false → Shipped p) ↔ ¬ ShippedLike p := by
  constructor
  · intro h hlike
    have hrefused : applies p = false := by
      rw [Bool.eq_false_iff, ne_eq, applies_iff]
      exact fun happlies => happlies.2.2 hlike
    exact shipped_unlike (h (lua_of_untouched (.inr hlike)) hrefused) hlike
  · intro h hlua hrefused
    by_contra hshipped
    rw [Bool.eq_false_iff, ne_eq, applies_iff] at hrefused
    exact hrefused ⟨hlua, hshipped, h⟩

theorem wrap?_ne_nil {template : Text} (h : Text.lines template ≠ []) (year : Nat) (s : Text) :
    wrap? { header := some template } year s ≠ some [] := by
  intro hnil
  have hwrap := around_named { header := some template } year [] s
  have hempty := Option.some.inj (hwrap.symm.trans hnil)
  rw [List.append_assoc, List.append_eq_nil_iff, heading] at hempty
  have hheading := hempty.1
  split at hheading
  · next hrender => exact h (List.map_eq_nil_iff.mp hrender)
  · simp at hheading

end Banner

namespace Emission

def fileName (path : Text) : Text := (Text.splitOn '/' path).getLast?.getD []

def Exempt (path : Text) : Prop :=
  ∀ text config year, process path text config year = ⟨some text, [], none⟩

def treated (path text : Text) (config : Config) (year : Nat) : Processed :=
  let required := Require.resolveAll (Scope.ofPath path) text
  let deferred := Deferral.apply config.deferralTemplate config.hostNamespace required.text
  { text := Banner.wrap? config year deferred
    violations := required.violations
    notice := Deferral.notice? config.deferralTemplate config.hostNamespace required.text }

/-- A file name that ends like that of a library, and is another one. -/
def Lookalike (name : Text) : Prop := name ∉ verbatim ∧ ∃ library ∈ verbatim, library <:+ name

theorem verbatim_level : ∀ library ∈ verbatim, '/' ∉ library := by decide

theorem suffix_fileName {pat : Text} (hlevel : '/' ∉ pat) (path : Text) :
    pat <:+ path ↔ pat <:+ fileName path := by
  obtain ⟨ps, p, h⟩ := Text.exists_splitOn_last '/' path
  rw [Text.suffix_iff_pieces (Text.splitOn_eq_singleton hlevel), fileName, h, List.getLast?_concat]
  exact Text.suffix_last

theorem verbatim_any_iff (path : Text) :
    verbatim.any (fun name => Text.endsWith name path) = true ↔
      ∃ library ∈ verbatim, library <:+ path := by
  simp only [List.any_eq_true, Text.endsWith_iff]

theorem process_treated {path : Text} (h : ¬ ∃ library ∈ verbatim, library <:+ path) (text : Text)
    (config : Config) (year : Nat) :
    process path text config year = treated path text config year := by
  rw [← verbatim_any_iff] at h
  rw [process, if_neg h]
  rfl

theorem exempt_iff_suffix (path : Text) : Exempt path ↔ ∃ library ∈ verbatim, library <:+ path := by
  constructor
  · intro h
    by_contra hno
    have hempty := h [] { header := some ['-'] } 0
    rw [process_treated hno] at hempty
    exact Banner.wrap?_ne_nil (by decide) 0 _ (congrArg Processed.text hempty)
  · intro h text config year
    rw [← verbatim_any_iff] at h
    rw [process, if_pos h]

theorem suffix_iff_name (path : Text) : (∃ library ∈ verbatim, library <:+ path) ↔
    fileName path ∈ verbatim ∨ Lookalike (fileName path) := by
  have hname : (∃ library ∈ verbatim, library <:+ path) ↔
      ∃ library ∈ verbatim, library <:+ fileName path :=
    exists_congr fun library => and_congr_right fun hlibrary =>
      suffix_fileName (verbatim_level library hlibrary) path
  rw [hname, Lookalike]
  constructor
  · intro h
    by_cases hin : fileName path ∈ verbatim
    · exact .inl hin
    · exact .inr ⟨hin, h⟩
  · rintro (hin | ⟨-, h⟩)
    · exact ⟨_, hin, List.suffix_refl _⟩
    · exact h

theorem exempt_iff_name (path : Text) :
    Exempt path ↔ fileName path ∈ verbatim ∨ Lookalike (fileName path) :=
  (exempt_iff_suffix path).trans (suffix_iff_name path)

theorem exempt_library_iff (path : Text) :
    (Exempt path → fileName path ∈ verbatim) ↔ ¬ Lookalike (fileName path) := by
  rw [exempt_iff_name]
  constructor
  · intro h hlike
    exact hlike.1 (h (.inr hlike))
  · intro h
    rintro (hin | hlike)
    · exact hin
    · exact absurd hlike h

theorem suffix_outputPath (path : Text) : (∃ library ∈ verbatim, library <:+ outputPath path) ↔
    ∃ library ∈ verbatim, library <:+ slashed path := by
  rw [outputPath_eq]
  split
  · next hruntime =>
    exact iff_of_true ⟨runtimeFile, by decide, by decide⟩
      ⟨runtimeFile, by decide, (Text.endsWith_iff _ _).mp hruntime⟩
  · refine exists_congr fun library => and_congr_right fun hlibrary => ?_
    have hdot : ∀ library ∈ verbatim, library.head? ≠ some '.' := by decide
    have hlevel := verbatim_level library hlibrary
    rw [← suffix_dropDots (hdot library hlibrary) hlevel (slashed path)]
    conv_rhs =>
      rw [← List.takeWhile_append_dropWhile (p := (· = '/')) (l := dropDots (slashed path))]
    refine (Text.suffix_append_iff fun c hc hmem => ?_).symm
    have hslash := List.all_eq_true.mp List.all_takeWhile c (List.mem_of_getLast? hc)
    rw [of_decide_eq_true hslash] at hmem
    exact hlevel hmem

theorem exempt_outputPath (path : Text) : Exempt (outputPath path) ↔ Exempt (slashed path) := by
  rw [exempt_iff_suffix, exempt_iff_suffix, suffix_outputPath]

/-- Modules are exempt whose file name is that of a library or ends like it, and every other module
is treated. Banners are refused to what is no Lua module, to the files that the host ships, and to
files of their names in a directory that is named like the shared scope at the end. So names decide
exactly where there is no file name that only ends like that of a library, and no directory that is
only named so at the end. -/
theorem exemptions_exact (path : Text) (destination : Path) :
    ((Exempt path ↔ fileName path ∈ verbatim ∨ Lookalike (fileName path)) ∧
      (¬ Exempt path → ∀ text config year,
        process path text config year = treated path text config year) ∧
      (Exempt (outputPath path) ↔ Exempt (slashed path)) ∧
      ((Exempt path → fileName path ∈ verbatim) ↔ ¬ Lookalike (fileName path))) ∧
    (Banner.applies destination = true ↔ ".lua".toList <:+ Text.lower destination.name ∧
      ¬ Banner.Shipped destination ∧ ¬ Banner.ShippedLike destination) ∧
    ((".lua".toList <:+ Text.lower destination.name → Banner.applies destination = false →
      Banner.Shipped destination) ↔ ¬ Banner.ShippedLike destination) := by
  have htreated (h : ¬ Exempt path) := process_treated ((exempt_iff_suffix path).not.mp h)
  exact ⟨⟨exempt_iff_name path, htreated, exempt_outputPath path, exempt_library_iff path⟩,
    Banner.applies_iff destination, Banner.refused_shipped_iff destination⟩

/-- A module whose file name only ends like that of a library is exempt, and a file in a directory
that is only named like the shared scope at the end gets no banner. -/
theorem sample_lookalikes : (¬ ∀ path, Exempt path → fileName path ∈ verbatim) ∧
    ¬ ∀ destination : Path, ".lua".toList <:+ Text.lower destination.name →
      Banner.applies destination = false → Banner.Shipped destination := by
  constructor
  · intro h
    have hexempt : Exempt "client/MyPipeWrench.lua".toList :=
      (exempt_iff_suffix _).mpr ⟨"PipeWrench.lua".toList, by decide, by decide⟩
    exact absurd (h _ hexempt) (by decide)
  · intro h
    have hshipped := h (Path.parse "media/lua/client/myshared/zomboid.lua".toList) (by decide)
      (by decide)
    exact Banner.shipped_unlike hshipped
      ⟨"zomboid.lua".toList, by decide, "my".toList, by decide, by decide⟩

end Emission

end ModBuild
