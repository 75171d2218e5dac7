import ModBuild.Proofs.Deferral.Collecting
import ModBuild.Proofs.Text.Spans

/-!
# The spliced block

With something to defer and a template to defer it in, a module is given out as
the text in front of its last line, the block and that line. The block is the
template with its first marker replaced, by one assignment for each binding and
nothing else, and only blank lines behind the last line are lost.
-/

set_option autoImplicit false

namespace ModBuild.Deferral

variable {space s : Text}

theorem shown_of_defers {line left right : Text} (h : Binding.Defers space line left right) :
    Text.blank line = false := by
  rw [h.line_eq, Text.blank_append, Text.blank_append]
  rfl

theorem shown_of_bindings (h : Binding.collect space s ≠ []) : Text.blank s = false := by
  obtain ⟨b, hb⟩ := List.exists_mem_of_ne_nil _ h
  obtain ⟨line, left, right, -, hline, hdefers, -⟩ := (Binding.mem_collect_iff space s b).1 hb
  by_contra hblank
  have hall := Text.blank_of_mem_splitOn (Bool.not_eq_false _ ▸ hblank)
    (List.mem_of_getElem? hline)
  rw [shown_of_defers hdefers] at hall
  cases hall

theorem feed_not_mem_reassignment {b : Binding} (h : b ∈ Binding.collect space s) :
    '\n' ∉ b.reassignment := by
  obtain ⟨line, left, right, -, hline, hdefers, hname, hvalue⟩ :=
    (Binding.mem_collect_iff space s b).1 h
  have hfeed : '\n' ∉ line := Text.not_mem_of_mem_splitOn (List.mem_of_getElem? hline)
  rw [hdefers.line_eq] at hfeed
  simp only [List.mem_append, List.mem_cons, not_or] at hfeed
  rw [Binding.reassignment, hname, hvalue, List.mem_append, List.mem_append]
  rintro ((hleft | hequals) | hright)
  · exact hfeed.1.2 (Text.mem_of_mem_trim hleft)
  · exact absurd hequals (by decide)
  · exact hfeed.2.2 (Text.mem_of_mem_trim hright)

theorem splitLast_append {init rest : List Text} {last : Text} (hlast : Text.blank last = false)
    (hrest : ∀ p ∈ rest, Text.blank p = true) :
    splitLast (init ++ last :: rest) = (init, last) := by
  have hrev : ∀ p ∈ rest.reverse, Text.blank p = true := fun p hp =>
    hrest p (List.mem_reverse.1 hp)
  rw [splitLast, List.reverse_append, List.reverse_cons, List.append_assoc,
    List.dropWhile_append_of_pos hrev, List.singleton_append,
    List.dropWhile_cons_of_neg (by rw [hlast]; exact Bool.false_ne_true)]
  simp only [List.reverse_reverse]

theorem splitLast_lastLine {front last back : Text} (h : Text.LastLine s front last back) :
    ∃ init, splitLast (Text.splitOn '\n' s) = (init, last) ∧
      Text.join ['\n'] init = front.dropLast := by
  obtain ⟨init, rest, hlines, -, hjoin, hrest⟩ := h.pieces
  exact ⟨init, by rw [hlines, splitLast_append h.shown hrest], hjoin⟩

theorem block_firstCut {t a b : Text} (h : Text.FirstCut marker t a b) (bs : List Binding) :
    block t bs = a ++ Text.join ['\n'] (bs.map Binding.reassignment) ++ b :=
  Text.replaceFirst_of_firstCut h _

theorem apply_unchanged {template : Option Text}
    (h : Binding.collect space s = [] ∨ template = none ∨ template = some []) :
    apply template space s = s := by
  rw [apply]
  rcases h with h | rfl | rfl
  · rw [h]
  · cases Binding.collect space s <;> rfl
  · cases Binding.collect space s <;> rfl

theorem apply_spliced {t front last back : Text} (hb : Binding.collect space s ≠ []) (ht : t ≠ [])
    (h : Text.LastLine s front last back) :
    apply (some t) space s = front.dropLast ++ "\n\n".toList ++
      block t (Binding.collect space s) ++ "\n\n".toList ++ last ++ ['\n'] := by
  obtain ⟨init, hsplit, hjoin⟩ := splitLast_lastLine h
  have husable : usable? (some t) = some t := by simp [usable?, ht]
  obtain ⟨b, bs, hbs⟩ := List.exists_cons_of_ne_nil hb
  rw [apply, husable, hbs]
  simp only [hsplit, hjoin]

theorem lastLine_concat (text : Text) {last : Text} (hline : '\n' ∉ last)
    (hshown : Text.blank last = false) :
    Text.LastLine (text ++ "\n\n".toList ++ last ++ ['\n']) (text ++ "\n\n".toList) last
      ['\n'] where
  parts := rfl
  begins := .inr ⟨text ++ ['\n'], by rw [List.append_assoc]; rfl⟩
  ends := .inr ⟨[], rfl⟩
  line := hline
  shown := hshown
  rest := rfl

/-- The bindings are those of the deferred lines, in their order. Without bindings or a template
a module stays as it is, and otherwise it is the text in front of its last line, the template
with the assignments in place of its first marker, and the last line, which is still the last. -/
theorem apply_exact (template : Option Text) (space s : Text) :
    (∀ b, b ∈ Binding.collect space s ↔ ∃ line left right, 0 < b.line ∧
      (Text.splitOn '\n' s)[b.line-1]? = some line ∧ Binding.Defers space line left right ∧
      b.name = Text.trim left ∧ b.initializer = Text.trim right) ∧
    ((Binding.collect space s).Pairwise fun a b => a.line < b.line) ∧
    (∀ b ∈ Binding.collect space s, '\n' ∉ b.reassignment) ∧
    (Binding.collect space s = [] ∨ template = none ∨ template = some [] →
      apply template space s = s) ∧
    (Binding.collect space s ≠ [] → ∀ t, template = some t → marker <:+: t →
      ∃ a b front last back, Text.FirstCut marker t a b ∧ Text.LastLine s front last back ∧
        apply template space s =
          front.dropLast ++ "\n\n".toList ++
            (a ++ Text.join ['\n'] ((Binding.collect space s).map fun x =>
              x.name ++ " = ".toList ++ x.initializer) ++ b) ++
            "\n\n".toList ++ last ++ ['\n'] ∧
        ∃ front', Text.LastLine (apply template space s) front' last ['\n']) := by
  refine ⟨Binding.mem_collect_iff space s, Binding.collect_ordered space s,
    fun b hb => feed_not_mem_reassignment hb, apply_unchanged, fun hb t ht hmark => ?_⟩
  subst ht
  obtain ⟨a, b, hcut⟩ := Text.firstCut_of_infix hmark
  obtain ⟨front, last, back, hlast⟩ := Text.exists_lastLine (shown_of_bindings hb)
  have hne : t ≠ [] := by
    rintro rfl
    exact absurd hmark (by decide)
  have hspliced := apply_spliced hb hne hlast
  rw [block_firstCut hcut] at hspliced
  refine ⟨a, b, front, last, back, hcut, hlast, hspliced, ?_⟩
  rw [hspliced]
  exact ⟨_, lastLine_concat _ hlast.line hlast.shown⟩

end ModBuild.Deferral
