import ModBuild.Proofs.Exemption
import Mathlib.Data.List.DropRight

/-!
# How emitted paths are normalised

Steps to the current directory are taken from the front of an emitted path first,
and then the slashes. A step that stands behind such slashes comes to the front
only then, and it stays: the path that is left can be normalised further, and its
first segment names no scope. So a path is canonical exactly where its leading
dots do not go on behind a slash too many.
-/

set_option autoImplicit false

namespace ModBuild

def Scope.named (t : Text) : Scope := (directories.find? fun s => s.text == t).getD .none

namespace Emission

def dots (n : Nat) : Text := (List.replicate n ['.', '/']).flatten

/-- The leading dots of a path that is not taken for the runtime library go on
behind slashes. -/
def Redotted (path : Text) : Prop := misdirected path = false ∧
  ∃ n k rest, slashed path = dots n ++ (List.replicate (k+1) '/' ++ '.' :: '/' :: rest)

def leading (s : Text) : List Text :=
  (Text.splitOn '/' s).filter fun p => p ≠ [] ∧ p ≠ ['.']

/-- The scope that an emitted path means: that of its first segment that is not
empty and no dot, or the shared scope if it is the path of the runtime library. -/
def meantScope (path : Text) : Scope :=
  if fileName (slashed path) = runtimeFile then .shared
  else ((leading (slashed path)).head?.map Scope.named).getD .none

theorem dots_succ (n : Nat) (s : Text) : dots (n+1) ++ s = '.' :: '/' :: (dots n ++ s) := by
  rw [dots, List.replicate_succ, List.flatten_cons]
  rfl

theorem dropDots_dots (n : Nat) (s : Text) : dropDots (dots n ++ s) = dropDots s := by
  induction n with
  | zero => rfl
  | succ n ih => rw [dots_succ, dropDots, ih]

theorem dropDots_eq_self {s : Text} (h : ¬ ['.', '/'] <+: s) : dropDots s = s := by
  fun_cases dropDots s with
  | case1 rest => exact absurd ⟨rest, rfl⟩ h
  | case2 => rfl

theorem exists_dots (s : Text) : (∃ n, s = dots n ++ dropDots s) ∧ ¬ ['.', '/'] <+: dropDots s := by
  fun_induction dropDots s with
  | case1 rest ih =>
    obtain ⟨⟨n, hn⟩, hrest⟩ := ih
    exact ⟨⟨n+1, by rw [dots_succ, ← hn]⟩, hrest⟩
  | case2 s hnot =>
    refine ⟨⟨0, rfl⟩, ?_⟩
    rintro ⟨rest, rfl⟩
    exact hnot rest rfl

theorem exists_slashes (s : Text) :
    ∃ k, s = List.replicate k '/' ++ s.dropWhile (· = '/') := by
  refine ⟨(s.takeWhile (· = '/')).length, ?_⟩
  have htaken : s.takeWhile (· = '/') = List.replicate (s.takeWhile (· = '/')).length '/' :=
    List.eq_replicate_of_mem fun c hc =>
      of_decide_eq_true (List.all_eq_true.mp List.all_takeWhile c hc)
  rw [← htaken, List.takeWhile_append_dropWhile]

theorem dropSlashes_replicate (k : Nat) (s : Text) :
    (List.replicate k '/' ++ s).dropWhile (· = '/') = s.dropWhile (· = '/') :=
  List.dropWhile_append_of_pos fun c hc => by simp [List.eq_of_mem_replicate hc]

theorem outputPath_ordinary {path : Text} (h : misdirected path = false) :
    outputPath path = (dropDots (slashed path)).dropWhile (· = '/') := by
  rw [outputPath_eq, if_neg (by simp [h])]

theorem outputPath_misdirected {path : Text} (h : misdirected path = true) :
    outputPath path = Scope.shared.text ++ '/' :: runtimeFile := by
  rw [outputPath_eq, if_pos h]

/-- A step to the current directory is in front of what is normalised exactly if
slashes stood in front of it. -/
theorem dotted_outputPath_iff (path : Text) : ['.', '/'] <+: outputPath path ↔ Redotted path := by
  cases h : misdirected path with
  | true =>
    rw [outputPath_misdirected h, Redotted, h]
    exact iff_of_false (by decide) (by simp)
  | false =>
    rw [outputPath_ordinary h, Redotted, h]
    constructor
    · rintro ⟨rest, hrest⟩
      obtain ⟨⟨n, hn⟩, hnot⟩ := exists_dots (slashed path)
      obtain ⟨k, hk⟩ := exists_slashes (dropDots (slashed path))
      rw [← hrest] at hk
      cases k with
      | zero => exact absurd ⟨rest, hk.symm⟩ hnot
      | succ k => exact ⟨rfl, n, k, rest, by rw [hn, hk]; rfl⟩
    · rintro ⟨-, n, k, rest, hpath⟩
      have hstop : dropDots (List.replicate (k+1) '/' ++ '.' :: '/' :: rest) = _ :=
        dropDots_eq_self (by simp [List.replicate_succ])
      rw [hpath, dropDots_dots, hstop, dropSlashes_replicate]
      exact ⟨rest, rfl⟩

theorem backslash_not_mem_slashed (path : Text) : '\\' ∉ slashed path :=
  Text.not_mem_map_ite (by decide) path

theorem slashed_eq_self {path : Text} (h : '\\' ∉ path) : slashed path = path :=
  Text.map_ite_eq_self '/' h

theorem outputPath_suffix {path : Text} (h : misdirected path = false) :
    outputPath path <:+ slashed path := by
  rw [outputPath_ordinary h]
  exact (List.dropWhile_suffix _).trans (dropDots_suffix _)

theorem backslash_not_mem_outputPath (path : Text) : '\\' ∉ outputPath path := by
  cases h : misdirected path with
  | true =>
    rw [outputPath_misdirected h]
    decide
  | false => exact fun hmem => backslash_not_mem_slashed path ((outputPath_suffix h).subset hmem)

theorem outputPath_again {path : Text} (h : misdirected path = false) :
    outputPath (outputPath path) = (dropDots (outputPath path)).dropWhile (· = '/') := by
  have hslashed := slashed_eq_self (backslash_not_mem_outputPath path)
  have hordinary : misdirected (outputPath path) = false := by
    rw [Bool.eq_false_iff]
    intro hends
    rw [misdirected, hslashed, Text.endsWith_iff] at hends
    have hwhole := (Text.endsWith_iff _ _).mpr (hends.trans (outputPath_suffix h))
    exact absurd (h.symm.trans hwhole) (by decide)
  rw [outputPath_ordinary hordinary, hslashed]

/-- A path is normalised once and for all exactly if no step to the current
directory is left in front of it. -/
theorem outputPath_twice_iff (path : Text) :
    outputPath (outputPath path) = outputPath path ↔ ¬ ['.', '/'] <+: outputPath path := by
  cases h : misdirected path with
  | true =>
    rw [outputPath_misdirected h]
    exact iff_of_true (by decide) (by decide)
  | false =>
    rw [outputPath_again h]
    constructor
    · rintro htwice ⟨rest, hrest⟩
      rw [← hrest, List.cons_append, List.cons_append, List.nil_append, dropDots] at htwice
      have hshort := ((List.dropWhile_suffix (· = '/')).trans (dropDots_suffix rest)).length_le
      rw [htwice, List.length_cons, List.length_cons] at hshort
      omega
    · intro hnot
      rw [dropDots_eq_self hnot, outputPath_ordinary h, List.dropWhile_idempotent]

theorem leading_cons {t s : Text} (ht : '/' ∉ t) (hblank : t = [] ∨ t = ['.']) :
    leading (t ++ '/' :: s) = leading s := by
  rw [leading, Text.splitOn_append_cons ht, List.filter_cons_of_neg, leading]
  rcases hblank with rfl | rfl <;> decide

theorem leading_dropDots (s : Text) : leading (dropDots s) = leading s := by
  fun_induction dropDots s with
  | case1 rest ih => exact ih.trans (leading_cons (t := ['.']) (by decide) (.inr rfl)).symm
  | case2 s => rfl

theorem leading_dropSlashes (s : Text) : leading (s.dropWhile (· = '/')) = leading s := by
  induction s with
  | nil => rfl
  | cons c s ih =>
    by_cases hc : c = '/'
    · subst hc
      rw [List.dropWhile_cons_of_pos (by simp), ih]
      exact (leading_cons (t := []) (by decide) (.inl rfl)).symm
    · rw [List.dropWhile_cons_of_neg (by simpa using hc)]

theorem ofPath_leading {s : Text} (hslash : ¬ ['/'] <+: s) (hdot : ¬ ['.', '/'] <+: s) :
    Scope.ofPath s = ((leading s).head?.map Scope.named).getD .none := by
  have hhead : Scope.ofPath s = Scope.named (s.takeWhile (· ≠ '/')) := rfl
  have hkeep {p : Text} (hp : '/' ∉ p) : ∀ c ∈ p, decide (c ≠ '/') = true := fun c hc =>
    decide_eq_true fun h => hp (h ▸ hc)
  rw [hhead, leading]
  by_cases hmem : '/' ∈ s
  · obtain ⟨p, rest, rfl, hp⟩ := List.eq_append_cons_of_mem hmem
    have hshown : p ≠ [] ∧ p ≠ ['.'] := by
      constructor
      · rintro rfl
        exact hslash ⟨rest, rfl⟩
      · rintro rfl
        exact hdot ⟨rest, rfl⟩
    rw [List.takeWhile_append_of_pos (hkeep hp), List.takeWhile_cons_of_neg (by simp),
      List.append_nil, Text.splitOn_append_cons hp, List.filter_cons_of_pos (by simpa using hshown)]
    rfl
  · rw [List.takeWhile_eq_self_iff.mpr (hkeep hmem), Text.splitOn_eq_singleton hmem]
    by_cases hblank : s = [] ∨ s = ['.']
    · rcases hblank with rfl | rfl <;> decide
    · rw [List.filter_cons_of_pos (by simpa [not_or] using hblank)]
      rfl

/-- The scope of what is normalised is the one that was meant, but for paths that
are taken for the runtime library and for those that still begin with a dot. -/
theorem ofPath_outputPath (path : Text) : Scope.ofPath (outputPath path) =
    if misdirected path then .shared
    else if ['.', '/'] <+: outputPath path then .none else meantScope path := by
  cases h : misdirected path with
  | true =>
    rw [outputPath_misdirected h, if_pos rfl]
    decide
  | false =>
    rw [if_neg (by decide)]
    split
    · next hdot =>
      obtain ⟨rest, hrest⟩ := hdot
      rw [← hrest]
      rfl
    · next hdot =>
      have hslash : ¬ ['/'] <+: outputPath path := fun ⟨rest, hrest⟩ =>
        outputPath_relative path rest hrest.symm
      have hname : fileName (slashed path) ≠ runtimeFile := by
        intro hname
        have hplain : '/' ∉ runtimeFile := by decide
        have hends := (suffix_fileName hplain (slashed path)).mpr (by rw [hname])
        exact absurd (h.symm.trans ((Text.endsWith_iff _ _).mpr hends)) (by decide)
      rw [ofPath_leading hslash hdot, meantScope, if_neg hname, outputPath_ordinary h,
        leading_dropSlashes, leading_dropDots]

/-- What is normalised holds no backslash and begins with no slash. It begins with
a step to the current directory, and is normalised further, exactly if the dots in
front of it went on behind slashes. Its scope is the one that was meant unless
that is so, or it is taken for the runtime library, and it has another scope then
than was meant. -/
theorem outputPath_canonical_iff (path : Text) :
    '\\' ∉ outputPath path ∧ ¬ ['/'] <+: outputPath path ∧
    (¬ ['.', '/'] <+: outputPath path ↔ ¬ Redotted path) ∧
    (outputPath (outputPath path) = outputPath path ↔ ¬ Redotted path) ∧
    (Scope.ofPath (outputPath path) = meantScope path ↔
      (misdirected path = true → meantScope path = .shared) ∧
        (Redotted path → meantScope path = .none)) := by
  refine ⟨backslash_not_mem_outputPath path, ?_, (dotted_outputPath_iff path).not, ?_, ?_⟩
  · exact fun ⟨rest, hrest⟩ => outputPath_relative path rest hrest.symm
  · rw [outputPath_twice_iff, dotted_outputPath_iff]
  · rw [ofPath_outputPath]
    cases h : misdirected path with
    | true =>
      have hnot : ¬ Redotted path := fun hredotted => by simp [Redotted, h] at hredotted
      rw [if_pos rfl]
      exact ⟨fun hscope => ⟨fun _ => hscope.symm, fun hredotted => absurd hredotted hnot⟩,
        fun hscope => (hscope.1 rfl).symm⟩
    | false =>
      rw [if_neg (by decide)]
      split
      · next hdot =>
        have hredotted := (dotted_outputPath_iff path).mp hdot
        exact ⟨fun hscope => ⟨nofun, fun _ => hscope.symm⟩, fun hscope => (hscope.2 hredotted).symm⟩
      · next hdot =>
        have hnot := (dotted_outputPath_iff path).not.mp hdot
        exact iff_of_true rfl ⟨nofun, fun hredotted => absurd hredotted hnot⟩

/-- A slash in front of a step to the current directory keeps that step there: the
path can be normalised further, and it has lost its scope. -/
theorem sample_dot_kept : (¬ ∀ path, ¬ ['.', '/'] <+: outputPath path) ∧
    (¬ ∀ path, outputPath (outputPath path) = outputPath path) ∧
    ¬ ∀ path, Scope.ofPath (outputPath path) = meantScope path := by
  refine ⟨fun h => h "/./client/note.lua".toList (by decide), fun h => ?_, fun h => ?_⟩
  · exact absurd (h "/./client/note.lua".toList) (by decide)
  · exact absurd (h "/./client/note.lua".toList) (by decide)

end Emission

end ModBuild
