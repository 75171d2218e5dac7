import ModBuild.Proofs.Build.Failing
import ModBuild.Proofs.Tree.Files

/-!
# What the transpiler is heard of

A transpiler that fails is heard of by its failure alone, and one that prints what
is no text by that alone. Otherwise every file in its scratch directory is emitted
once, in the order of their ways, up to the first that is no text.
-/

set_option autoImplicit false

namespace ModBuild.ProcessRunner

open ModBuild.Action

def announced (c : Command) (w : Workspace) : Workspace :=
  { w with log := w.log ++ [⟨.debug, "Running ".toList ++ Text.join [' '] c.arguments, none⟩] }

def Unreadable (scratch : Tree) (way : Location) : Prop :=
  ∃ b, scratch.get? way = some (.file b) ∧ Text.decode? b = none

structure Emits (scratch : Tree) (way : Location) (e : Emission) : Prop where
  path : e.path = Text.join ['/'] (way.map Name.text)
  text : ∃ b s, scratch.get? way = some (.file b) ∧ Text.decode? b = some s ∧
    e.text = Text.unifyBreaks s
  declaration : e.isDeclaration = true ↔ ".d.ts".toList <:+ e.path

variable {r : ProcessRunner} {w v : Workspace} {outcome : ProcessOutcome}

theorem readOutput_of_decode {b : ByteArray} {s : Text} (h : Text.decode? b = some s)
    (v : Workspace) :
    Action.ofExcept (readOutput b) v = .ok (Text.unifyBreaks s) v := by
  rw [readOutput, h]
  rfl

theorem readOutput_of_garbled {b : ByteArray} (h : Text.decode? b = none) (v : Workspace) :
    Action.ofExcept (readOutput b) v = .error .notText v := by
  rw [readOutput, h]
  rfl

section

variable {tool : Text} {arguments : List Text}
  (hrun : r.run (r.command tool arguments) (announced (r.command tool arguments) w) =
    .ok outcome v)

include hrun

theorem runTool_ran : r.runTool tool arguments w = (do
    let stdout ← Action.ofExcept (readOutput outcome.stdout)
    let stderr ← Action.ofExcept (readOutput outcome.stderr)
    if outcome.exitCode = 0 then return outcome
    throw (.toolchain (.exited tool outcome.exitCode (Text.trim (stdout ++ stderr))))
      : Action ProcessOutcome)
      { v with commands := v.commands ++ [r.command tool arguments] } := by
  -- The steps are logging, running and recording; only the second depends on the process.
  have hlog : (log .debug ("Running ".toList ++ Text.join [' '] (r.words ++ tool :: arguments)) :
      Action Unit) w = .ok () (announced (r.command tool arguments) w) := rfl
  have hrecord : record (r.command tool arguments) v =
      .ok () { v with commands := v.commands ++ [r.command tool arguments] } := rfl
  exact (bind_of_ok hlog).trans ((bind_of_ok hrun).trans (bind_of_ok hrecord))

theorem runTool_garbled (h : outcome.Garbled) :
    ∃ w', r.runTool tool arguments w = .error .notText w' := by
  rw [runTool_ran hrun]
  cases hout : Text.decode? outcome.stdout with
  | none => exact ⟨_, bind_of_error (readOutput_of_garbled hout _)⟩
  | some out =>
    have herr := h.resolve_left (by simp [hout])
    exact ⟨_, (bind_of_ok (readOutput_of_decode hout _)).trans
      (bind_of_error (readOutput_of_garbled herr _))⟩

theorem runTool_eq {out err : Text} (hout : Text.decode? outcome.stdout = some out)
    (herr : Text.decode? outcome.stderr = some err) : ∃ w', r.runTool tool arguments w =
      if outcome.exitCode = 0 then .ok outcome w'
      else .error (.toolchain (.exited tool outcome.exitCode
        (Text.trim (Text.unifyBreaks out ++ Text.unifyBreaks err)))) w' := by
  rw [runTool_ran hrun, bind_of_ok (readOutput_of_decode hout _),
    bind_of_ok (readOutput_of_decode herr _)]
  refine ⟨{ v with commands := v.commands ++ [r.command tool arguments] }, ?_⟩
  split <;> rfl

end

theorem mem_files (t : Tree) (way : Location) (b : ByteArray) :
    (way, b) ∈ files t.entries ↔ t.get? way = some (.file b) := by
  rw [mem_files_iff, Tree.mem_entries_iff, and_iff_right_iff_imp]
  rintro h rfl
  cases h

theorem ordered_files (t : Tree) : (files t.entries).Pairwise fun x y => x.1 < y.1 := by
  rw [files, List.pairwise_filterMap]
  refine (t.ordered_below []).imp fun {x y} hxy a ha b hb => ?_
  obtain ⟨_, -, rfl⟩ := Option.map_eq_some_iff.mp ha
  obtain ⟨_, -, rfl⟩ := Option.map_eq_some_iff.mp hb
  exact hxy

theorem splitOn_emittedPath {way : Location} (h : way ≠ []) :
    Text.splitOn '/' (emittedPath way) = way.map Name.text := by
  have hlevel : ∀ t ∈ way.map Name.text, '/' ∉ t :=
    List.forall_mem_map.mpr fun n _ => n.valid.2.2.2
  exact Text.splitOn_join (mt List.map_eq_nil_iff.mp h) hlevel

theorem emits_iff (t : Tree) (way : Location) (e : Emission) :
    Emits t way e ↔ ∃ b, (way, b) ∈ files t.entries ∧ emission? (way, b) = some e := by
  constructor
  · rintro ⟨hpath, ⟨b, s, hfile, hdecode, htext⟩, hdeclaration⟩
    refine ⟨b, (mem_files t way b).mpr hfile, ?_⟩
    obtain ⟨path, text, declaration⟩ := e
    have hkind : declaration = Text.endsWith Emission.declarationExtension path := by
      rw [Bool.eq_iff_iff, Text.endsWith_iff]
      exact hdeclaration
    simp only at hpath htext
    rw [hkind, htext, hpath, emission?, hdecode]
    rfl
  · rintro ⟨b, hfile, he⟩
    obtain ⟨s, hdecode, rfl⟩ := Option.map_eq_some_iff.mp he
    exact ⟨rfl, ⟨b, s, (mem_files t way b).mp hfile, hdecode, rfl⟩, Text.endsWith_iff _ _⟩

theorem ordered_emissions {t : Tree} {xs : List (Location × ByteArray)}
    (h : xs <+: files t.entries) :
    ((xs.filterMap emission?).map fun e => Text.splitOn '/' e.path).Pairwise (· < ·) := by
  rw [List.pairwise_map, List.pairwise_filterMap]
  -- The way of a file is not empty, so its segments are the pieces of the path that is emitted.
  refine ((ordered_files t).sublist h.sublist).imp_of_mem fun {x y} hx hy hxy e he e' he' => ?_
  have hway {x : Location × ByteArray} (hx : x ∈ xs) : x.1 ≠ [] := by
    intro hnil
    have hfile := (mem_files t x.1 x.2).mp (h.subset hx)
    rw [hnil] at hfile
    cases hfile
  obtain ⟨_, -, rfl⟩ := Option.map_eq_some_iff.mp he
  obtain ⟨_, -, rfl⟩ := Option.map_eq_some_iff.mp he'
  rw [splitOn_emittedPath (hway hx), splitOn_emittedPath (hway hy)]
  exact List.map_lt (fun _ _ hlt => hlt) hxy

theorem mem_filterMap_emission {xs : List (Location × ByteArray)} {e : Emission} :
    e ∈ xs.filterMap emission? ↔ ∃ way b, (way, b) ∈ xs ∧ emission? (way, b) = some e := by
  rw [List.mem_filterMap, Prod.exists]

theorem unreadable_iff (t : Tree) (way : Location) :
    Unreadable t way ↔ ∃ b, (way, b) ∈ files t.entries ∧ Text.decode? b = none :=
  exists_congr fun b => and_congr_left' (mem_files t way b).symm

theorem mem_front_iff {t : Tree} {front back : List (Location × ByteArray)}
    {x : Location × ByteArray} (h : files t.entries = front ++ x :: back)
    (y : Location × ByteArray) : y ∈ front ↔ y ∈ files t.entries ∧ y.1 < x.1 := by
  have hordered := ordered_files t
  rw [h, List.pairwise_append, List.pairwise_cons] at hordered
  obtain ⟨-, ⟨hback, -⟩, hfront⟩ := hordered
  rw [h]
  constructor
  · exact fun hy => ⟨List.mem_append_left _ hy, hfront y hy x List.mem_cons_self⟩
  · rintro ⟨hy, hlt⟩
    rcases List.mem_append.mp hy with hy | hy
    · exact hy
    · rcases List.mem_cons.mp hy with rfl | hy
      · exact absurd hlt (List.lt_irrefl _)
      · exact absurd hlt (List.lt_asymm (hback y hy))

theorem emissions_exact (t : Tree) :
    ((emissions t.entries).emissions.map fun e => Text.splitOn '/' e.path).Pairwise (· < ·) ∧
    (((∀ way, ¬ Unreadable t way) ∧ (emissions t.entries).failure = none ∧
        ∀ e, e ∈ (emissions t.entries).emissions ↔ ∃ way, Emits t way e) ∨
      ∃ first, Unreadable t first ∧ (∀ way, way < first → ¬ Unreadable t way) ∧
        (emissions t.entries).failure = some .notText ∧
        ∀ e, e ∈ (emissions t.entries).emissions ↔ ∃ way, way < first ∧ Emits t way e) := by
  rcases emissions_cases t.entries with
    ⟨hall, hes⟩ | ⟨front, ⟨first, b⟩, back, hsplit, hfront, hb, hes⟩
  · rw [hes]
    refine ⟨ordered_emissions (List.prefix_refl _), .inl ⟨fun way h => ?_, rfl, fun e => ?_⟩⟩
    · obtain ⟨b, hmem, hb⟩ := (unreadable_iff _ way).mp h
      exact hall _ hmem hb
    · rw [mem_filterMap_emission]
      exact exists_congr fun way => (emits_iff _ way e).symm
  · rw [hes]
    refine ⟨ordered_emissions ⟨_, hsplit.symm⟩, .inr ⟨first, ?_, fun way hlt h => ?_, rfl,
      fun e => ?_⟩⟩
    · exact (unreadable_iff _ first).mpr ⟨b, by simp [hsplit], hb⟩
    · obtain ⟨b', hmem, hb'⟩ := (unreadable_iff _ way).mp h
      exact hfront _ ((mem_front_iff hsplit (way, b')).mpr ⟨hmem, hlt⟩) hb'
    · simp only [mem_filterMap_emission, emits_iff, mem_front_iff hsplit]
      constructor
      · rintro ⟨way, b, ⟨hmem, hlt⟩, he⟩
        exact ⟨way, hlt, b, hmem, he⟩
      · rintro ⟨way, hlt, b, hmem, he⟩
        exact ⟨way, b, ⟨hmem, hlt⟩, he⟩

/-- The process of the transpiler has run. If what it printed is no text, that is
the failure, whatever it exited with, and nothing is emitted. Otherwise, if it
exited with another code than nought, that is the failure, and nothing is emitted.
Otherwise the segments of the paths that are emitted increase, so that no file is
emitted twice, and either all files are text and each of them is emitted, or there
is a first one that is no text, each file in front of it is emitted and the
emissions fail there. A file is emitted with its own text exactly if there is no
carriage return in it. -/
theorem transpile_reports {config : Path}
    (hrun : r.run (r.transpiling config) (announced (r.transpiling config) w) = .ok outcome v) :
    (outcome.Garbled → ∃ w', r.toolchain.transpile config w = .error .notText w') ∧
    (∀ out err, Text.decode? outcome.stdout = some out → Text.decode? outcome.stderr = some err →
      (outcome.exitCode ≠ 0 → ∃ w', r.toolchain.transpile config w =
        .error (.toolchain (.exited "tstl".toList outcome.exitCode
          (Text.trim (Text.unifyBreaks out ++ Text.unifyBreaks err)))) w') ∧
      (outcome.exitCode = 0 → ∃ t w', r.toolchain.transpile config w = .ok t w' ∧
        (t.emissions.map fun e => Text.splitOn '/' e.path).Pairwise (· < ·) ∧
        (((∀ way, ¬ Unreadable outcome.scratch way) ∧ t.failure = none ∧
            ∀ e, e ∈ t.emissions ↔ ∃ way, Emits outcome.scratch way e) ∨
          ∃ first, Unreadable outcome.scratch first ∧
            (∀ way, way < first → ¬ Unreadable outcome.scratch way) ∧
            t.failure = some .notText ∧
            ∀ e, e ∈ t.emissions ↔ ∃ way, way < first ∧ Emits outcome.scratch way e))) ∧
    ∀ way b s e, outcome.scratch.get? way = some (.file b) → Text.decode? b = some s →
      Emits outcome.scratch way e → (e.text = s ↔ '\r' ∉ s) := by
  refine ⟨fun hgarbled => ?_, fun out err hout herr => ?_, fun way b s e hfile hs he => ?_⟩
  · obtain ⟨w', htool⟩ := runTool_garbled hrun hgarbled
    exact ⟨w', bind_of_error htool⟩
  · obtain ⟨w', htool⟩ := runTool_eq hrun hout herr
    refine ⟨fun hcode => ?_, fun hcode => ?_⟩
    · rw [if_neg hcode] at htool
      exact ⟨w', bind_of_error htool⟩
    · rw [if_pos hcode] at htool
      exact ⟨_, w', bind_of_ok htool, emissions_exact outcome.scratch⟩
  · obtain ⟨b', s', hfile', hs', htext⟩ := he.text
    cases hfile.symm.trans hfile'
    cases hs.symm.trans hs'
    rw [htext, Text.unifyBreaks_eq_self_iff]

/-! A process that leaves two modules in front of a file that is no text. The one in
the directory comes first, though its path is the greater text. -/

def sampleDirectory : Name := ⟨"a".toList, by decide⟩

def sampleInner : Name := ⟨"c.lua".toList, by decide⟩

def sampleOuter : Name := ⟨"a-b.lua".toList, by decide⟩

def sampleGarbled : Name := ⟨"b.lua".toList, by decide⟩

def sampleScratch : Tree :=
  (Except.toOption do
    let t ← Tree.empty.makeDirectory [sampleDirectory]
    let t ← t.writeFile [sampleDirectory, sampleInner] (Text.encode "return 1".toList)
    let t ← t.writeFile [sampleOuter] (Text.encode "return 2".toList)
    t.writeFile [sampleGarbled] ⟨#[0xff]⟩).getD .empty

def sampleRunner (outcome : ProcessOutcome) : ProcessRunner where
  words := ["npx".toList]
  directory := none
  scratch := "out".toList
  run _ := return outcome

def sampleOutcome : ProcessOutcome where
  stdout := Text.encode "done".toList
  scratch := sampleScratch

def sampleEmission : Emission := ⟨"a-b.lua".toList, "return 2".toList, false⟩

theorem sample_reported : ∃ t w',
    (sampleRunner sampleOutcome).toolchain.transpile (Path.ofLocation []) { tree := .empty } =
        .ok t w' ∧
      t.failure = some .notText ∧ sampleEmission ∈ t.emissions ∧
      (t.emissions.map fun e => Text.splitOn '/' e.path).Pairwise (· < ·) := by
  have hgarbled : ∀ x ∈ files sampleScratch.entries,
      Text.decode? x.2 = none → x.1 = [sampleGarbled] := by
    decide +kernel
  obtain ⟨-, hread, -⟩ := @transpile_reports (sampleRunner sampleOutcome) { tree := .empty } _ _
    (Path.ofLocation []) rfl
  obtain ⟨-, hreported⟩ := hread "done".toList [] (by decide +kernel) (by decide +kernel)
  obtain ⟨t, w', ht, hordered, ⟨hall, -⟩ | ⟨first, hfirst, -, hfailure, hemits⟩⟩ := hreported rfl
  · exact absurd ⟨⟨#[0xff]⟩, by decide +kernel, by decide +kernel⟩ (hall [sampleGarbled])
  · obtain ⟨b, hmem, hb⟩ := (unreadable_iff _ first).mp hfirst
    obtain rfl := hgarbled (first, b) hmem hb
    refine ⟨t, w', ht, hfailure, (hemits _).mpr ⟨[sampleOuter], by decide, rfl, ?_, by decide⟩,
      hordered⟩
    exact ⟨Text.encode "return 2".toList, "return 2".toList, by decide +kernel, by decide +kernel,
      by decide +kernel⟩

def sampleBroken : Tree :=
  ((Tree.empty.writeFile [sampleInner] (Text.encode "return 1\r\n".toList)).toOption).getD .empty

/-- A process that prints a byte that is no text is not heard of by its code, and a
line end of two characters is not emitted. -/
theorem sample_output_unread :
    (∃ w', (sampleRunner { exitCode := 3, stderr := ⟨#[0xe9]⟩ }).toolchain.transpile
        (Path.ofLocation []) { tree := .empty } = .error .notText w') ∧
    (∃ w', (sampleRunner { sampleOutcome with stdout := ⟨#[0xe9]⟩ }).toolchain.transpile
        (Path.ofLocation []) { tree := .empty } = .error .notText w') ∧
    (((sampleRunner { scratch := sampleBroken }).toolchain.transpile (Path.ofLocation [])).result?
        { tree := .empty }).map Prod.fst =
      some ⟨[⟨"c.lua".toList, "return 1\n".toList, false⟩], none⟩ := by
  have hgarbled (outcome : ProcessOutcome) (h : outcome.Garbled) :
      ∃ w', (sampleRunner outcome).toolchain.transpile (Path.ofLocation []) { tree := .empty } =
        .error .notText w' := by
    obtain ⟨w', htool⟩ :=
      runTool_garbled (r := sampleRunner outcome) (w := { tree := .empty }) rfl h
    exact ⟨w', bind_of_error htool⟩
  exact ⟨hgarbled _ (.inr (by decide +kernel)), hgarbled _ (.inl (by decide +kernel)),
    by decide +kernel⟩

end ModBuild.ProcessRunner
