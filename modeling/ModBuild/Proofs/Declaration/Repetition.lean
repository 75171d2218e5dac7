import ModBuild.Proofs.Declaration.Compile

/-!
# Compilations after one another

What an earlier compilation left matters to the next one exactly where the
compiler writes nothing: then it is read as if the compiler had written it. Two
leftovers lead to one result if they carry the same lines, and a merged file is
never the merge of itself, so a second compilation only repeats the first one
if that left nothing.
-/

set_option autoImplicit false

namespace ModBuild.Declaration

variable {layout : Layout} {config : Config} {year : Nat} {w w' v v' : Workspace} {l : Location}
  {lines lines' : List Text} {files files' : List SourceFile} {t t' : Option Text}

theorem textAt_congr (h : v'.tree.file? l = v.tree.file? l) : textAt v' l = textAt v l := by
  rw [textAt, textAt, h]

theorem sourceFiles_congr (hc : v'.current = v.current)
    (h : ∀ m, v'.tree.file? m = v.tree.file? m) : sourceFiles layout v' = sourceFiles layout v := by
  apply List.flatMap_congr
  intro s _
  rw [scopeFiles, scopeFiles, hc, Tree.filesBelow_congr fun way => h _]
  apply List.map_congr_left
  intro way _
  rw [sourceFile, sourceFile, hc, textAt_congr (h _)]

theorem carriedFrom_congr (hc : v'.current = v.current)
    (h : ∀ m, v'.tree.file? m = v.tree.file? m) :
    carriedFrom layout l v' = carriedFrom layout l v := by
  rw [carriedFrom, carriedFrom, sourceFiles_congr hc h, linesAt, linesAt, textAt_congr (h l)]

theorem sourceFiles_nil (hc : v'.current = v.current)
    (h : ∀ m, v'.tree.file? m ≠ none → v.tree.file? m ≠ none) (hnil : sourceFiles layout v = []) :
    sourceFiles layout v' = [] := by
  rw [sourceFiles, List.flatMap_eq_nil_iff] at hnil ⊢
  intro s hs
  have hnone := hnil s hs
  rw [scopeFiles, List.map_eq_nil_iff, List.filter_eq_nil_iff] at hnone ⊢
  intro way hway
  apply hnone
  rw [Tree.mem_filesBelow] at hway ⊢
  rw [hc] at hway
  exact ⟨hway.1, h _ hway.2⟩

theorem carried_nil : carried lines files = ([], []) ↔ nothingToExport lines files = true := by
  rw [nothingToExport, Bool.and_eq_true, List.isEmpty_iff, List.isEmpty_iff, carried,
    Prod.mk.injEq, List.map_eq_nil_iff]
  apply and_congr_right'
  constructor
  · intro h
    cases files with
    | nil => rfl
    | cons file files =>
      rw [List.flatMap_cons, block, List.cons_append, List.map_cons, List.flatMap_cons,
        List.append_eq_nil_iff] at h
      exact absurd h.1 (Text.splitOn_ne_nil _ _)
  · rintro rfl
    rfl

theorem exports_eq_iff {s s' : Text} (hlines : lines = consolidated s)
    (hlines' : lines' = consolidated s') (h : Exports lines files config year t)
    (h' : Exports lines' files' config year t') :
    t' = t ↔ carried lines' files' = carried lines files := by
  cases h with
  | nothing h =>
    rw [carried_nil.mpr h, carried_nil]
    cases h' with
    | nothing h' => simp [h']
    | merge h' => simp [h']
  | merge h htokens =>
    cases h' with
    | nothing h' =>
      rw [carried_nil.mpr h', eq_comm, eq_comm (a := (([], []) : List Text × List Text)),
        carried_nil]
      simp [h]
    | merge h' htokens' =>
      rw [htokens] at htokens'
      cases htokens'
      rw [Option.some.injEq]
      exact merged_eq_iff hlines' hlines

/-- What exported nothing is gone, and no declaration file was there, so nothing
is exported of it again. -/
theorem exports_nothing_again (hc : v'.current = v.current)
    (hnothing : nothingToExport (linesAt v l) (sourceFiles layout v) = true)
    (hgone : v'.tree.file? l = none) (hrest : ∀ m, m ≠ l → v'.tree.file? m = v.tree.file? m)
    (h : Exports (linesAt v' l) (sourceFiles layout v') config year t) : t = none := by
  rw [nothingToExport, Bool.and_eq_true, List.isEmpty_iff, List.isEmpty_iff] at hnothing
  have hfiles : sourceFiles layout v' = [] := by
    apply sourceFiles_nil hc _ hnothing.2
    intro m hm
    by_cases hl : m = l
    · rw [hl] at hm
      exact absurd hgone hm
    · rwa [← hrest m hl]
  have hlines : linesAt v' l = [] := by
    rw [linesAt, textAt, hgone]
    rfl
  rw [hfiles, hlines] at h
  cases h with
  | nothing => rfl
  | merge h => simp [nothingToExport] at h

theorem exports_merge_again {tokens : Banner.Tokens}
    (htokens : Banner.Tokens.ofConfig? config year = some tokens)
    (hleft : v'.tree.file? l = some (Text.encode (merged lines files config tokens)))
    (h : Exports (linesAt v' l) files' config year t) :
    t ≠ some (merged lines files config tokens) := by
  have hlines : linesAt v' l =
      consolidated (Text.unifyBreaks (merged lines files config tokens)) := by
    rw [linesAt, textAt, hleft, Option.bind_some, Text.decode?_encode]
    rfl
  rw [hlines] at h
  cases h with
  | nothing => simp
  | merge _ htokens' =>
    rw [htokens] at htokens'
    cases htokens'
    intro heq
    exact merged_ne_of_own _ (Option.some.inj heq)

theorem encode_inj {s s' : Text} : Text.encode s = Text.encode s' ↔ s = s' := by
  constructor
  · intro h
    have hread := congrArg Text.decode? h
    rw [Text.decode?_encode, Text.decode?_encode] at hread
    exact Option.some.inj hread
  · exact congrArg _

theorem file_at_end {D : Location → Prop} {b : Option ByteArray} (h : v.Leads D [(l, b)] w') :
    w'.tree.file? l = b ∧ ∀ m, m ≠ l → w'.tree.file? m = v.tree.file? m := by
  constructor
  · rw [h.files, overlay, overlay, if_pos rfl]
  · intro m hm
    exact h.file_untouched (by simpa using hm.symm)

section

variable {info : Manifest} {toolchain : Toolchain} {output : Option ByteArray}
  {x x' : Option Path}

theorem outcome_eq_iff {D : Location → Prop} {out : Path}
    (h : v.Leads D [(l, t.map Text.encode)] w) (h' : v'.Leads D [(l, t'.map Text.encode)] w') :
    (t'.map (fun _ => out) = t.map (fun _ => out) ∧ w'.tree.file? l = w.tree.file? l) ↔
      t' = t := by
  rw [(file_at_end h).1, (file_at_end h').1]
  constructor
  · rintro ⟨-, hfile⟩
    cases t with
    | none => simpa using hfile
    | some s =>
      cases t' with
      | none => cases hfile
      | some s' =>
        simp only [Option.map_some, Option.some.injEq] at hfile
        rw [encode_inj.mp hfile]
  · rintro rfl
    exact ⟨rfl, rfl⟩

/-- Compilations that start with different leftovers end alike exactly if the
compiler writes over them, or if they carry the same. -/
theorem compile_leftovers {w₁ w₂ w₁' w₂' : Workspace}
    (hdeclares : toolchain.Declares layout.tsconfig (layout.mergedDeclarations info.id) output)
    (hs₁ : w₁.Stands layout.root) (hs₂ : w₂.Stands layout.root) (hc : w₂.current = w₁.current)
    (hagree : ∀ m, m ≠ (layout.mergedDeclarations info.id).location w₁.current →
      w₂.tree.file? m = w₁.tree.file? m)
    (h₁ : compile layout config info year toolchain w₁ = .ok x w₁')
    (h₂ : compile layout config info year toolchain w₂ = .ok x' w₂') :
    (x' = x ∧ w₂'.tree.file? ((layout.mergedDeclarations info.id).location w₁.current) =
        w₁'.tree.file? ((layout.mergedDeclarations info.id).location w₁.current)) ↔
      output.isSome = true ∨
        carriedFrom layout ((layout.mergedDeclarations info.id).location w₁.current) w₂ =
          carriedFrom layout ((layout.mergedDeclarations info.id).location w₁.current) w₁ := by
  obtain ⟨v₁, t₁, hv₁, ht₁, rfl, hw₁⟩ := compile_ok hs₁ hdeclares h₁
  obtain ⟨v₂, t₂, hv₂, ht₂, rfl, hw₂⟩ := compile_ok hs₂ hdeclares h₂
  rw [hc] at hv₂ ht₂ hw₂
  rw [outcome_eq_iff hw₁ hw₂, exports_eq_iff rfl rfl ht₁ ht₂]
  have hcurrent : v₂.current = v₁.current := by rw [hv₂.current, hv₁.current, hc]
  change carriedFrom layout _ v₂ = carriedFrom layout _ v₁ ↔ _
  cases output with
  | none =>
    rw [carriedFrom_congr hv₁.current hv₁.files, carriedFrom_congr hv₂.current hv₂.files]
    simp
  | some b =>
    -- the compiler writes over what was left, so both read the same
    have hsame (m : Location) : v₂.tree.file? m = v₁.tree.file? m := by
      obtain ⟨hout₁, hrest₁⟩ := file_at_end hv₁
      obtain ⟨hout₂, hrest₂⟩ := file_at_end hv₂
      by_cases hm : m = (layout.mergedDeclarations info.id).location w₁.current
      · rw [hm, hout₁, hout₂]
      · rw [hrest₁ m hm, hrest₂ m hm, hagree m hm]
    simp [carriedFrom_congr hcurrent hsame]

/-- A compilation is repeated by the next one exactly if the compiler writes its
output again, or if nothing was left. -/
theorem compile_again {w₁ w₂ : Workspace}
    (hdeclares : toolchain.Declares layout.tsconfig (layout.mergedDeclarations info.id) output)
    (hs : w.Stands layout.root)
    (h₁ : compile layout config info year toolchain w = .ok x w₁)
    (h₂ : compile layout config info year toolchain w₁ = .ok x' w₂) :
    (x' = x ∧ w₂.tree.file? ((layout.mergedDeclarations info.id).location w.current) =
        w₁.tree.file? ((layout.mergedDeclarations info.id).location w.current)) ↔
      output.isSome = true ∨ x = none := by
  obtain ⟨v, t, hv, ht, rfl, hw⟩ := compile_ok hs hdeclares h₁
  have hs₁ : w₁.Stands layout.root := (hs.leads hv).leads hw
  have hc : w₁.current = w.current := hw.current.trans hv.current
  cases output with
  | some b =>
    have hagree : ∀ m, m ≠ (layout.mergedDeclarations info.id).location w.current →
        w₁.tree.file? m = w.tree.file? m := by
      intro m hm
      rw [(file_at_end hw).2 m hm, (file_at_end hv).2 m hm]
    rw [compile_leftovers hdeclares hs hs₁ hc hagree h₁ h₂]
    simp
  | none =>
    obtain ⟨v', t', hv', ht', rfl, hw'⟩ := compile_ok hs₁ hdeclares h₂
    rw [hc] at hv' ht' hw'
    rw [outcome_eq_iff hw hw']
    have hread : v'.tree.file? ((layout.mergedDeclarations info.id).location w.current) =
        t.map Text.encode := by
      rw [hv'.files]
      exact (file_at_end hw).1
    cases ht with
    | nothing hnothing =>
      have hrest : ∀ m, m ≠ (layout.mergedDeclarations info.id).location w.current →
          v'.tree.file? m = v.tree.file? m := by
        intro m hm
        rw [hv'.files]
        exact (file_at_end hw).2 m hm
      have hcurrent : v'.current = v.current := by rw [hv'.current, hc, hv.current]
      simp [exports_nothing_again hcurrent hnothing hread hrest ht']
    | merge hsome htokens =>
      have hagain := exports_merge_again htokens hread ht'
      simp [hagain]

end

/-- Compilations that succeed and start with different leftovers of an earlier
one end with one result and one merged file exactly if the compiler writes its
output or the leftovers carry the same. One that is done again ends as the first
one did exactly if the compiler writes its output or nothing was left. -/
theorem compile_independent_iff (layout : Layout) (config : Config) (info : Manifest) (year : Nat)
    (toolchain : Toolchain) (output : Option ByteArray)
    (hdeclares : toolchain.Declares layout.tsconfig (layout.mergedDeclarations info.id) output) :
    (∀ (w₁ w₂ w₁' w₂' : Workspace) (x₁ x₂ : Option Path),
        w₁.Stands layout.root → w₂.Stands layout.root → w₂.current = w₁.current →
        (∀ l, l ≠ (layout.mergedDeclarations info.id).location w₁.current →
          w₂.tree.file? l = w₁.tree.file? l) →
        compile layout config info year toolchain w₁ = .ok x₁ w₁' →
        compile layout config info year toolchain w₂ = .ok x₂ w₂' →
        ((x₂ = x₁ ∧ w₂'.tree.file? ((layout.mergedDeclarations info.id).location w₁.current) =
            w₁'.tree.file? ((layout.mergedDeclarations info.id).location w₁.current)) ↔
          output.isSome = true ∨
            carriedFrom layout ((layout.mergedDeclarations info.id).location w₁.current) w₂ =
              carriedFrom layout ((layout.mergedDeclarations info.id).location w₁.current) w₁)) ∧
      ∀ (w w₁ w₂ : Workspace) (x x' : Option Path), w.Stands layout.root →
        compile layout config info year toolchain w = .ok x w₁ →
        compile layout config info year toolchain w₁ = .ok x' w₂ →
        ((x' = x ∧ w₂.tree.file? ((layout.mergedDeclarations info.id).location w.current) =
            w₁.tree.file? ((layout.mergedDeclarations info.id).location w.current)) ↔
          output.isSome = true ∨ x = none) :=
  ⟨fun _ _ _ _ _ _ hs₁ hs₂ hc hagree h₁ h₂ => compile_leftovers hdeclares hs₁ hs₂ hc hagree h₁ h₂,
    fun _ _ _ _ _ hs h₁ h₂ => compile_again hdeclares hs h₁ h₂⟩

/-! A project with one declaration file, a compiler that writes its output and
one that writes nothing. -/

def sampleSources : Workspace where
  tree := (Except.toOption do
    let t ← Tree.empty.makeDirectory [Layout.sourceName]
    let t ← t.makeDirectory [Layout.sourceName, Scope.shared.name]
    t.writeFile [Layout.sourceName, Scope.shared.name, ⟨"a.d.ts".toList, by decide⟩]
      (Text.encode "export {}".toList)).getD .empty

def sampleInfo : Manifest := ⟨"note".toList, "Note".toList, "p".toList, "d".toList, []⟩

def sampleCompiler (output : Option ByteArray) : Toolchain where
  transpile _ := return ⟨[], none⟩
  declare _ out :=
    match output with
    | some b => Action.writeBytes out b
    | none => pure ()

theorem sample_declares (output : Option ByteArray) (tsconfig out : Path) :
    (sampleCompiler output).Declares tsconfig out output := by
  intro v u v' h
  cases output with
  | some b => exact (Action.writeBytes_ok h).2
  | none =>
    obtain ⟨-, rfl⟩ := Action.pure_eq_ok.mp h
    exact .refl _ _

def sampleCompile (output : Option ByteArray) : Action (Option Path) :=
  compile (Layout.choose none none) {} sampleInfo 2024 (sampleCompiler output)

def sampleOut : Location := [Layout.distName, ⟨"note.d.ts".toList, by decide⟩]

def sampleTwice (output : Option ByteArray) :
    Option ((Option Path × Workspace) × Option Path × Workspace) :=
  ((sampleCompile output).result? sampleSources).bind fun first =>
    ((sampleCompile output).result? first.2).map fun second => (first, second)

theorem sampleTwice_eq {output : Option ByteArray} {x x' : Option Path} {w₁ w₂ : Workspace}
    (h : sampleTwice output = some ((x, w₁), x', w₂)) :
    sampleCompile output sampleSources = .ok x w₁ ∧ sampleCompile output w₁ = .ok x' w₂ := by
  obtain ⟨first, hfirst, h⟩ := Option.bind_eq_some_iff.mp h
  obtain ⟨second, hsecond, heq⟩ := Option.map_eq_some_iff.mp h
  obtain ⟨rfl, rfl⟩ := Prod.mk.inj heq
  exact ⟨Action.result_eq_some.mp hfirst, Action.result_eq_some.mp hsecond⟩

theorem sample_written_again : ∃ x w₁ x' w₂,
    sampleCompile (some (Text.encode "export {}".toList)) sampleSources = .ok x w₁ ∧
      sampleCompile (some (Text.encode "export {}".toList)) w₁ = .ok x' w₂ ∧
      x' = x ∧ w₂.tree.file? sampleOut = w₁.tree.file? sampleOut := by
  have hrun : (sampleTwice (some (Text.encode "export {}".toList))).isSome = true := by
    decide +kernel
  obtain ⟨⟨⟨x, w₁⟩, x', w₂⟩, htwice⟩ := Option.isSome_iff_exists.mp hrun
  obtain ⟨hfirst, hsecond⟩ := sampleTwice_eq htwice
  have hsame := ((compile_independent_iff _ _ _ _ _ _ (sample_declares _ _ _)).2 sampleSources
    w₁ w₂ x x' (by decide +kernel) hfirst hsecond).mpr (.inl rfl)
  exact ⟨x, w₁, x', w₂, hfirst, hsecond, hsame⟩

theorem sample_merged_again : ∃ x w₁ x' w₂,
    sampleCompile none sampleSources = .ok x w₁ ∧ sampleCompile none w₁ = .ok x' w₂ ∧
      w₂.tree.file? sampleOut ≠ w₁.tree.file? sampleOut := by
  have hrun : ((sampleTwice none).any fun (first, second) =>
      decide (second.2.tree.file? sampleOut ≠ first.2.tree.file? sampleOut)) = true := by
    decide +kernel
  obtain ⟨⟨⟨x, w₁⟩, x', w₂⟩, htwice, hne⟩ := (Option.any_eq_true _ _).mp hrun
  obtain ⟨hfirst, hsecond⟩ := sampleTwice_eq htwice
  exact ⟨x, w₁, x', w₂, hfirst, hsecond, of_decide_eq_true hne⟩

end ModBuild.Declaration
