import ModBuild.Proofs.Deferral.Collecting
import ModBuild.Proofs.Text.Nesting
import ModBuild.Proofs.Text.Spans

/-!
# What an assignment repeats

A binding is read from one line. A declaration that goes on behind that line is
repeated up to the end of the line only, so the assignment is the whole
declaration if and only if there is nothing more of it, and it nests if and only
if the rest does.
-/

set_option autoImplicit false

namespace ModBuild.Binding

variable {space s : Text}

/-- The lines of a declaration behind its first one, with the line feed in front of them. -/
def later (right : Text) : Text := right.dropWhile (· ≠ '\n')

def firstLine (right : Text) : Text := right.takeWhile (· ≠ '\n')

theorem firstLine_later (right : Text) : firstLine right ++ later right = right :=
  List.takeWhile_append_dropWhile

theorem firstLine_append {a : Text} (h : '\n' ∉ a) (b : Text) :
    firstLine (a ++ b) = a ++ firstLine b := by
  apply List.takeWhile_append_of_pos
  intro c hc
  have hne : c ≠ '\n' := by
    rintro rfl
    exact h hc
  simpa using hne

theorem splitOn_firstLine (t : Text) : (Text.splitOn '\n' t)[0]? = some (firstLine t) := by
  induction t with
  | nil => rfl
  | cons c t ih =>
    rw [Text.splitOn, firstLine]
    by_cases hc : c = '\n'
    · simp [hc]
    · have hne := Text.splitOn_ne_nil '\n' t
      rw [firstLine] at ih
      generalize Text.splitOn '\n' t = ps at ih hne
      cases ps with
      | nil => exact absurd rfl hne
      | cons p ps =>
        have hp : p = t.takeWhile (· ≠ '\n') := Option.some.inj ih
        simp [hc, hp]

theorem span_firstLine {before run after : Text} (h : Text.Span s before run after) :
    (Text.splitOn '\n' s)[before.count '\n']? = some (firstLine run) := by
  obtain ⟨init, rest, hlines, hlength, -⟩ := h.splitOn
  have hrun := splitOn_firstLine run
  obtain ⟨hpos, -⟩ := List.getElem?_eq_some_iff.1 hrun
  rw [hlines, List.append_assoc, ← hlength, List.getElem?_append_right (Nat.le_refl _),
    Nat.sub_self, List.getElem?_append_left hpos, hrun]

theorem defers_firstLine {left right l r : Text} (hleft : '=' ∉ left)
    (h : Defers space (firstLine ("local ".toList ++ left ++ '=' :: right)) l r) :
    l = left ∧ r = firstLine right := by
  have hlocal : '\n' ∉ "local ".toList := by decide
  have hline := h.line_eq
  rw [List.append_assoc, firstLine_append hlocal, List.append_assoc] at hline
  have hrest := List.append_cancel_left hline
  by_cases hfeed : '\n' ∈ left
  · -- the equals sign would be behind the first line
    obtain ⟨a, b, rfl, ha⟩ := List.eq_append_cons_of_mem hfeed
    rw [List.append_assoc, firstLine_append ha] at hrest
    have hnone : firstLine ('\n' :: b ++ '=' :: right) = [] := by simp [firstLine]
    rw [hnone, List.append_nil] at hrest
    have hmem : '=' ∈ a := by rw [hrest]; simp
    exact absurd (List.mem_append_left _ hmem) hleft
  · rw [firstLine_append hfeed] at hrest
    have hequals : firstLine ('=' :: right) = '=' :: firstLine right := by simp [firstLine]
    rw [hequals] at hrest
    obtain ⟨hl, hr⟩ := (Text.append_cons_inj hleft h.first).1 hrest
    exact ⟨hl.symm, hr.symm⟩

theorem brackets_reassignment {b : Binding} {line left right : Text}
    (h : Defers space line left right) (hname : b.name = Text.trim left)
    (hvalue : b.initializer = Text.trim right) :
    b.reassignment.filter Text.isBracket = line.filter Text.isBracket := by
  have hlocal : "local ".toList.filter Text.isBracket = [] := by decide
  have hequals : " = ".toList.filter Text.isBracket = [] := by decide
  have hsign : ('=' :: right).filter Text.isBracket = right.filter Text.isBracket :=
    List.filter_cons_of_neg (by decide)
  rw [reassignment, hname, hvalue, h.line_eq, List.filter_append, List.filter_append,
    List.filter_append, List.filter_append, Text.filter_trim Text.isBracket_of_isBlank,
    Text.filter_trim Text.isBracket_of_isBlank, hlocal, hequals, hsign, List.append_nil,
    List.nil_append]

/-- An assignment nests if and only if the line of its binding does. It repeats the whole
initializer of a declaration if and only if there is only white space behind its first line,
and if the declaration nests, then the assignment does if and only if its other lines do. -/
theorem reassignment_complete_iff {b : Binding} (hb : b ∈ collect space s) :
    (∃ line, (Text.splitOn '\n' s)[b.line-1]? = some line ∧
      (Text.Nests b.reassignment ↔ Text.Nests line)) ∧
    ∀ before left right after,
      Text.Span s before ("local ".toList ++ left ++ '=' :: right) after → '=' ∉ left →
      before.count '\n' = b.line-1 →
      b.name = Text.trim left ∧
      (b.initializer = Text.trim right ↔ Text.blank (later right) = true) ∧
      (Text.Nests ("local ".toList ++ left ++ '=' :: right) →
        (Text.Nests b.reassignment ↔ Text.Nests (later right))) := by
  obtain ⟨line, l, r, -, hline, hdefers, hname, hvalue⟩ := (mem_collect_iff space s b).1 hb
  have hnests := Text.nests_congr (brackets_reassignment hdefers hname hvalue)
  refine ⟨⟨line, hline, hnests⟩, fun before left right after hspan hleft hnumber => ?_⟩
  have hfirst := span_firstLine hspan
  rw [hnumber, hline] at hfirst
  have hfirstLine := Option.some.inj hfirst
  have hparts := hdefers
  rw [hfirstLine] at hparts
  obtain ⟨rfl, rfl⟩ := defers_firstLine hleft hparts
  refine ⟨hname, ?_, fun hwhole => ?_⟩
  · rw [hvalue, eq_comm, ← Text.trim_append_eq_iff (firstLine right), firstLine_later]
  · have hcut : "local ".toList ++ l ++ '=' :: right = line ++ later right := by
      rw [hdefers.line_eq, List.append_assoc, List.append_assoc, List.append_assoc,
        List.cons_append, firstLine_later]
    rw [hcut] at hwhole
    exact hnests.trans (Text.nests_append hwhole)

/-! A module whose declaration is one line, and one whose declaration is a call over several. -/

def sampleWhole : Text := "local A = ____PipeWrench.A\nreturn A\n".toList

def sampleCall : Text := "local A = ____PipeWrench.Make(\x7b\n    x = 1\n\x7d)".toList

theorem sample_whole_repeated :
    (⟨"A".toList, "____PipeWrench.A".toList, 1⟩ : Binding) ∈
        collect Deferral.defaultNamespace sampleWhole ∧
      "____PipeWrench.A".toList = Text.trim " ____PipeWrench.A".toList ∧
      Text.Nests (reassignment ⟨"A".toList, "____PipeWrench.A".toList, 1⟩) := by
  have hb : (⟨"A".toList, "____PipeWrench.A".toList, 1⟩ : Binding) ∈
      collect Deferral.defaultNamespace sampleWhole := by decide
  have hspan : Text.Span sampleWhole [] ("local ".toList ++ "A ".toList ++
      '=' :: " ____PipeWrench.A".toList) "\nreturn A\n".toList :=
    ⟨by decide, .inl rfl, .inr ⟨"return A\n".toList, by decide⟩⟩
  obtain ⟨-, hstatement⟩ := reassignment_complete_iff hb
  obtain ⟨-, hwhole, hnests⟩ := hstatement _ _ _ _ hspan (by decide) rfl
  exact ⟨hb, hwhole.2 (by decide), (hnests (by decide)).2 (by decide)⟩

theorem sample_call_truncated :
    ('"' ∉ sampleCall ∧ '\'' ∉ sampleCall ∧ ¬ "--".toList <:+: sampleCall) ∧
      (Text.Nests sampleCall ∧ Text.Nests "return A".toList ∧
        Text.Nests (sampleCall ++ "\nreturn A\n".toList)) ∧
      (collect Deferral.defaultNamespace (sampleCall ++ "\nreturn A\n".toList)).map
          reassignment = ["A = ____PipeWrench.Make(\x7b".toList] ∧
      ¬ Text.Nests "A = ____PipeWrench.Make(\x7b".toList := by
  decide

end ModBuild.Binding
