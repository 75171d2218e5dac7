import ModBuild.Proofs.Deferral.Splicing
import ModBuild.Proofs.Text.Nesting

/-!
# Where the block stands

The block stands in front of the last line that is not blank, whatever that
line is. So a declaration is behind the block if it is that line itself, and the
block is inside a statement if that line is not a whole one; a module that ends
in a return of one line has neither.
-/

set_option autoImplicit false

namespace ModBuild.Deferral

variable {space s : Text}

theorem brackets_lastLine {front last back : Text} (h : Text.LastLine s front last back) :
    s.filter Text.isBracket = (front.dropLast ++ last).filter Text.isBracket := by
  have hfront : front.filter Text.isBracket = front.dropLast.filter Text.isBracket := by
    rcases h.begins with rfl | ⟨w, rfl⟩
    · rfl
    · rw [List.dropLast_concat, List.filter_append, Text.filter_blank (s := ['\n']) rfl,
        List.append_nil]
  rw [h.parts, List.filter_append, List.filter_append, List.filter_append,
    Text.filter_blank h.rest, List.append_nil, hfront]

theorem nests_front {front last back : Text} (h : Text.LastLine s front last back)
    (hs : Text.Nests s) : Text.Nests front.dropLast ↔ Text.Nests last :=
  Text.nests_append ((Text.nests_congr (brackets_lastLine h)).1 hs)

theorem declarations_in_front {front last back : Text} (h : Text.LastLine s front last back) :
    (∀ b ∈ Binding.collect space s, (Text.splitOn '\n' front.dropLast)[b.line-1]? =
        (Text.splitOn '\n' s)[b.line-1]?) ↔
      ∀ left right, ¬ Binding.Defers space last left right := by
  constructor
  · intro hall left right hdefers
    have hline : (Text.splitOn '\n' s)[front.count '\n']? = some last := by
      obtain ⟨init, rest, hlines, hlength, -⟩ := h.pieces
      rw [hlines, ← hlength, List.getElem?_append_right (Nat.le_refl _), Nat.sub_self]
      rfl
    have hb : (⟨Text.trim left, Text.trim right, front.count '\n'+1⟩ : Binding) ∈
        Binding.collect space s :=
      (Binding.mem_collect_iff _ _ _).2
        ⟨last, left, right, Nat.succ_pos _, hline, hdefers, rfl, rfl⟩
    have hplace := hall _ hb
    rw [Nat.add_sub_cancel, hline] at hplace
    exact (h.placed hline h.shown).1.1 hplace rfl
  · intro hnone b hb
    obtain ⟨line, left, right, -, hline, hdefers, -⟩ := (Binding.mem_collect_iff _ _ _).1 hb
    have hplaced := h.placed hline (shown_of_defers hdefers)
    rw [hline]
    refine hplaced.1.2 fun hn => ?_
    rw [hplaced.2 hn] at hdefers
    exact hnone left right hdefers

/-- A line of the module is in front of the block unless it is the last one that is not blank,
so every declaration is if that line is none. In a module that nests, what is in front of the
block nests if and only if that line does. -/
theorem apply_placed {t : Text} (hb : Binding.collect space s ≠ []) (hmark : marker <:+: t) :
    ∃ front last back, Text.LastLine s front last back ∧
      apply (some t) space s = front.dropLast ++ "\n\n".toList ++
        block t (Binding.collect space s) ++ "\n\n".toList ++ last ++ ['\n'] ∧
      (∀ n line, (Text.splitOn '\n' s)[n]? = some line → Text.blank line = false →
        ((Text.splitOn '\n' front.dropLast)[n]? = some line ↔ n ≠ front.count '\n')) ∧
      ((∀ b ∈ Binding.collect space s, (Text.splitOn '\n' front.dropLast)[b.line-1]? =
          (Text.splitOn '\n' s)[b.line-1]?) ↔
        ∀ left right, ¬ Binding.Defers space last left right) ∧
      (Text.Nests s → (Text.Nests front.dropLast ↔ Text.Nests last)) := by
  obtain ⟨front, last, back, hlast⟩ := Text.exists_lastLine (shown_of_bindings hb)
  have hne : t ≠ [] := by
    rintro rfl
    exact absurd hmark (by decide)
  exact ⟨front, last, back, hlast, apply_spliced hb hne hlast,
    fun n line hline hshown => (hlast.placed hline hshown).1, declarations_in_front hlast,
    nests_front hlast⟩

/-! A module that ends in a return of one line, one that ends in a table, and one that is a
declaration alone. -/

def sampleTemplate : Text := "Boot(function()\n-- {IMPORTS}\nend)".toList

def sampleReturn : Text := "local A = ____PipeWrench.A\nreturn A\n".toList

def sampleTable : Text := "local A = ____PipeWrench.A\nreturn \x7b\n    A = A\n\x7d\n".toList

def sampleAlone : Text := "local A = ____PipeWrench.A\n".toList

def sampleBlock : Text := "Boot(function()\nA = ____PipeWrench.A\nend)".toList

theorem sample_return_placed :
    Binding.collect defaultNamespace sampleReturn ≠ [] ∧ marker <:+: sampleTemplate ∧
    ∃ front last back, Text.LastLine sampleReturn front last back ∧
      apply (some sampleTemplate) defaultNamespace sampleReturn =
        front.dropLast ++ "\n\n".toList ++
          block sampleTemplate (Binding.collect defaultNamespace sampleReturn) ++
          "\n\n".toList ++ last ++ ['\n'] ∧
      (Text.Nests front.dropLast ↔ Text.Nests last) := by
  have hb : Binding.collect defaultNamespace sampleReturn ≠ [] := by decide
  have hmark : marker <:+: sampleTemplate := by decide
  obtain ⟨front, last, back, hlast, happly, -, -, hnests⟩ := apply_placed hb hmark
  exact ⟨hb, hmark, front, last, back, hlast, happly, hnests (by decide)⟩

/-- The block is put into the table that is returned, and in front of a declaration that
nothing follows. -/
theorem sample_table_split :
    ('"' ∉ sampleTable ∧ '\'' ∉ sampleTable ∧ ¬ "--".toList <:+: sampleTable ∧
      Text.Nests sampleTable ∧
      apply (some sampleTemplate) defaultNamespace sampleTable =
        "local A = ____PipeWrench.A\nreturn \x7b\n    A = A\n\n".toList ++ sampleBlock ++
          "\n\n\x7d\n".toList ∧
      ¬ Text.Nests "local A = ____PipeWrench.A\nreturn \x7b\n    A = A\n\n".toList) ∧
    apply (some sampleTemplate) defaultNamespace sampleAlone =
      "\n\n".toList ++ sampleBlock ++ "\n\n".toList ++ sampleAlone := by
  decide

end ModBuild.Deferral
