import ModBuild.Proofs.Build.Failing
import ModBuild.Proofs.Declaration.Compile

/-!
# How compilations of declarations fail

Where the file system does not hinder it, a compilation fails for the name of the
mod, for its compiler, for a file that holds no text after the compiler has run,
or for the owner.
-/

set_option autoImplicit false

namespace ModBuild

def ProcessRunner.declaring (r : ProcessRunner) (config out : Path) : Command :=
  r.command "tsc".toList ["-p".toList, config.print, "--declaration".toList,
    "--emitDeclarationOnly".toList, "--outFile".toList, out.print]

namespace Declaration

open ModBuild.Action
open Asset (along)

/-- Why a compilation fails, from what it is given, if the file system does not
hinder it. -/
inductive Cause (layout : Layout) (config : Config) (info : Manifest) (year : Nat)
    (runner : ProcessRunner) : Failure → Prop
  | out {e : Failure} (h : (layout.mergedDeclarations info.id).Cut e) :
      Cause layout config info year runner e
  | process {v v' : Workspace} {e : Failure}
      (h : runner.run (runner.declaring layout.tsconfig (layout.mergedDeclarations info.id)) v =
        .error e v') : Cause layout config info year runner e
  | output {v u : Workspace} {outcome : ProcessOutcome}
      (h : runner.run (runner.declaring layout.tsconfig (layout.mergedDeclarations info.id)) v =
        .ok outcome u) (garbled : outcome.Garbled) : Cause layout config info year runner .notText
  | consolidated {v u : Workspace} {outcome : ProcessOutcome}
      (h : runner.run (runner.declaring layout.tsconfig (layout.mergedDeclarations info.id)) v =
        .ok outcome u) (garbled : u.Garbled (layout.mergedDeclarations info.id)) :
      Cause layout config info year runner .notText
  | source {v u : Workspace} {outcome : ProcessOutcome} {s : Scope} {way : Location} {e : Failure}
      (h : runner.run (runner.declaring layout.tsconfig (layout.mergedDeclarations info.id)) v =
        .ok outcome u) (hs : s ∈ Scope.directories) (hway : isDeclaration way = true)
      (unread : (along (layout.sourceDirectory s) way).Cut e ∨
        e = .notText ∧ u.Garbled (along (layout.sourceDirectory s) way)) :
      Cause layout config info year runner e
  | owner (h : Banner.Tokens.ofConfig? config year = none) :
      Cause layout config info year runner .notEncodable

section

variable {layout : Layout} {config : Config} {info : Manifest} {year : Nat}
  {runner : ProcessRunner} {C : Failure → Prop} {u : Workspace}

theorem readConsolidated_safe {out : Path} (h : u.Garbled out → C .notText) :
    Safe (· = u) C (readConsolidated out) := by
  refine safe_seq (safe_ask (fun _ _ _ _ => trivial) fun v hv e he => ?_) fun s => ?_
  · rcases Workspace.readTextIfAny_error he with he | ⟨rfl, hgarbled⟩
    · exact .inl he
    · exact .inr (h (hv ▸ hgarbled))
  · split <;> exact safe_pure trivial

theorem collect_safe (h : ∀ s ∈ Scope.directories, ∀ way e, isDeclaration way = true →
      (along (layout.sourceDirectory s) way).Cut e ∨
        e = .notText ∧ u.Garbled (along (layout.sourceDirectory s) way) → C e) :
    Safe (· = u) C (collect layout) := by
  refine safe_seq (safe_mapM fun s hs => ?_) fun _ => safe_pure trivial
  refine safe_seq (safe_ask (fun _ _ _ _ => trivial) fun v _ e he =>
    .inl (Workspace.filesBelow_error he)) fun ways => ?_
  refine safe_mapM fun way hway => ?_
  refine safe_seq (safe_ask (fun _ _ _ _ => trivial) fun v hv e he => ?_) fun _ => safe_pure trivial
  have hway := (List.mem_filter.mp hway).2
  rcases Workspace.readText_error he with he | hcut | ⟨rfl, hgarbled⟩
  · exact .inl (Failure.expected_of_fault he)
  · exact .inr (h s hs way e hway (.inl hcut))
  · exact .inr (h s hs way _ hway (.inr ⟨rfl, hv ▸ hgarbled⟩))

theorem garbled_same {v : Workspace} (ht : v.tree = u.tree) (hc : v.current = u.current) {p : Path}
    (h : v.Garbled p) : u.Garbled p := by
  rw [Workspace.Garbled, ht, hc] at h
  exact h

theorem compile_failed {e : Failure} {w w' : Workspace}
    (h : compile layout config info year runner.toolchain w = .error e w') :
    e.expected = true ∨ Cause layout config info year runner e := by
  rcases bind_error h with h | ⟨_, _, -, h⟩
  · exact (log_safe _ _ _).error trivial h
  rcases bind_error h with h | ⟨_, _, -, h⟩
  · exact ((makeDirectories_safe _).error trivial h).imp_right fun he => .out he.of_parent
  rcases bind_error h with h | ⟨_, _, hdeclare, h⟩
  · have htool : SafeAnywhere (Cause layout config info year runner)
        (runner.toolchain.declare layout.tsconfig (layout.mergedDeclarations info.id)) :=
      safe_seq (runner.runTool_safe _ _ (fun v e v' h => .process h)
        fun v outcome v' h => .output h) fun _ => safe_pure trivial
    exact htool.error trivial h
  obtain ⟨outcome, v, htool, hpure⟩ := bind_eq_ok.mp hdeclare
  obtain ⟨-, rfl⟩ := pure_eq_ok.mp hpure
  obtain ⟨_, u, hrun, htree, hcurrent⟩ := ProcessRunner.runTool_ok htool
  -- what is read back is what the compiler left
  have hread := readConsolidated_safe (C := Cause layout config info year runner) (u := v)
    fun hgarbled => .consolidated hrun (garbled_same htree hcurrent hgarbled)
  rcases bind_error h with h | ⟨lines, _, hlines, h⟩
  · exact hread.error rfl h
  rw [(hread.ok rfl hlines).1] at h
  rcases bind_error h with h | ⟨files, _, -, h⟩
  · refine (collect_safe fun s hs way e hway unread => ?_).error rfl h
    exact .source hrun hs hway (unread.imp_right fun ⟨he, hgarbled⟩ =>
      ⟨he, garbled_same htree hcurrent hgarbled⟩)
  split at h
  · refine Safe.error (I := fun _ => True) (Q := fun _ => True) ?_ trivial h
    exact safe_seq (log_safe _ _ _) fun _ => safe_seq ((removeFileIfAny_safe _).mono fun _ => .out)
      fun _ => safe_pure trivial
  · refine Safe.error (I := fun _ => True) (Q := fun _ => True) ?_ trivial h
    exact safe_seq (log_safe _ _ _) fun _ => safe_seq (writeText_safe _ _ (fun _ => .out)
      fun hnone => .owner (Option.map_eq_none_iff.mp hnone)) fun _ => safe_pure trivial

end

end Declaration

end ModBuild
