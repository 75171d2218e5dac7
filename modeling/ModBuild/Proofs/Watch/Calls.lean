import ModBuild.Proofs.Watch.Confinement

/-!
# What a responder calls

A responder loads the configuration and builds when it is asked to, and when an
event tells it of TypeScript in its sources. What a turn calls is told by what
its answer depends on: other steps that answer the same calls in the same way
come to the same. From the calls of all turns follows what the responder holds.
-/

set_option autoImplicit false

namespace ModBuild.Watch

open Asset (along)

inductive Request where
  | event (e : Event)
  | rebuild
  deriving DecidableEq

def Responder.answer (steps : Steps) (r : Responder) :
    Request → Action (Responder × Except Failure (Option Run))
  | .event e => r.respond steps e
  | .rebuild => do
    let (r, result) ← r.rebuild steps
    return (r, result.map some)

inductive Call where
  | load (outcome : Except Failure Config)
  | build (config : Config) (outcome : Except Failure Run)

namespace Call

/-- In one workspace the step that is called comes to this outcome, and it leaves
the other one. -/
def Leads (steps : Steps) : Call → Workspace → Workspace → Prop
  | .load outcome, v, v' => Action.attempt steps.load v = .ok outcome v'
  | .build config outcome, v, v' => Action.attempt (steps.build config) v = .ok outcome v'

def isLoad : Call → Bool
  | .load _ => true
  | .build _ _ => false

def loaded? : Call → Option Config
  | .load (.ok config) => some config
  | _ => none

def built? : Call → Option Run
  | .build _ (.ok run) => some run
  | _ => none

end Call

inductive Made (steps : Steps) : List Call → Workspace → Workspace → Prop
  | nil {v : Workspace} : Made steps [] v v
  | cons {call : Call} {calls : List Call} {v v' w : Workspace} (head : call.Leads steps v v')
      (rest : Made steps calls v' w) : Made steps (call :: calls) v w

/-- A turn of a responder: what it is asked, the workspace that it meets, and how
it loads and builds there. -/
structure Turn where
  steps : Steps
  workspace : Workspace
  request : Request

/-- What is told of a turn: the responder before and after it, the calls that it
made, and its result. -/
structure Record where
  turn : Turn
  before : Responder
  calls : List Call
  result : Except Failure (Option Run)
  after : Responder

/-- A record holds: the turn comes to its result by its calls and by no others.
Only the log has changed when they begin, and nothing is done after them. -/
def Record.Holds (x : Record) : Prop :=
  ∃ v w, v.tree = x.turn.workspace.tree ∧ v.current = x.turn.workspace.current ∧
    (x.calls ≠ [] → Made x.turn.steps x.calls v w) ∧
    ∀ steps : Steps, steps.year = x.turn.steps.year →
      (∀ v', Made x.turn.steps x.calls v v' → Made steps x.calls v v') →
      x.before.answer steps x.turn.request x.turn.workspace = .ok (x.after, x.result) w

def Recounts : Responder → List Record → Responder → Prop
  | r, [], r' => r = r'
  | r, x :: rest, r' => x.before = r ∧ x.Holds ∧ Recounts x.after rest r'

/-- An event tells that a file was written that is TypeScript and no declaration,
and the file is there, below the sources. -/
def TellsOfSource (layout : Layout) (w : Workspace) (e : Event) : Prop :=
  (e.kind = .add ∨ e.kind = .change) ∧ ∃ dir n,
    (eventPath layout e.path).location w.current =
        layout.source.location w.current ++ (dir ++ [n]) ∧
      w.tree.file? ((eventPath layout e.path).location w.current) ≠ none ∧
      Text.endsWith Asset.typeScriptExtension (Text.lower n.text) = true ∧
      Text.endsWith Emission.declarationExtension (Text.lower n.text) = false

/-- What a turn may do: it returns a run exactly if it adds that one, and for an
event it loads and builds at most once, and only if it is told of a source. -/
structure Record.Moderate (x : Record) : Prop where
  returned : ∀ run, x.result = .ok (some run) ↔ x.after.runs = x.before.runs ++ [run]
  loads : ∀ e, x.turn.request = .event e → x.calls.countP Call.isLoad ≤ 1
  builds : ∀ e, x.turn.request = .event e → x.calls.countP (!Call.isLoad ·) ≤ 1
  told : ∀ e, x.turn.request = .event e → x.calls ≠ [] →
    TellsOfSource x.before.layout x.turn.workspace e

def Fresh (calls : List Call) : Prop :=
  ∀ earlier config outcome later, calls = earlier ++ .build config outcome :: later →
    earlier.getLast? = some (.load (.ok config))

/-- What calls have made of a responder: its runs are those of the builds that
succeeded, in their order, and its configuration is the one that was loaded last. -/
structure Books (calls : List Call) (r : Responder) : Prop where
  runs : r.runs = calls.filterMap Call.built?
  fresh : Fresh calls
  config : (calls.filterMap Call.loaded?).getLast? = some r.config

/-! ### A turn -/

inductive Rebuilt (r : Responder) : List Call → Responder → Except Failure Run → Prop
  | unloaded (e : Failure) : Rebuilt r [.load (.error e)] r (.error e)
  | unbuilt (config : Config) (e : Failure) :
      Rebuilt r [.load (.ok config), .build config (.error e)] { r with config } (.error e)
  | built (config : Config) (run : Run) :
      Rebuilt r [.load (.ok config), .build config (.ok run)]
        { r with config, runs := r.runs ++ [run] } (.ok run)

section

variable {steps steps' : Steps} {r r' : Responder} {v w : Workspace} {calls : List Call}

theorem made_cons {call : Call} :
    Made steps (call :: calls) v w ↔ ∃ v', call.Leads steps v v' ∧ Made steps calls v' w := by
  constructor
  · rintro (_ | ⟨head, rest⟩)
    exact ⟨_, head, rest⟩
  · rintro ⟨v', head, rest⟩
    exact .cons head rest

theorem made_nil : Made steps [] v w ↔ v = w := by
  constructor
  · rintro ⟨⟩
    rfl
  · rintro rfl
    exact .nil

theorem rebuild_of_made {result : Except Failure Run} (h : Rebuilt r calls r' result)
    (hmade : Made steps calls v w) : r.rebuild steps v = .ok (r', result) w := by
  unfold Responder.rebuild
  cases h with
  | unloaded e =>
    obtain ⟨v₁, hload, hrest⟩ := made_cons.mp hmade
    obtain rfl := made_nil.mp hrest
    rw [Action.bind_of_ok hload]
    rfl
  | unbuilt config e =>
    obtain ⟨v₁, hload, hrest⟩ := made_cons.mp hmade
    obtain ⟨v₂, hbuild, hrest⟩ := made_cons.mp hrest
    obtain rfl := made_nil.mp hrest
    rw [Action.bind_of_ok hload]
    dsimp only
    rw [Action.bind_of_ok hbuild]
    rfl
  | built config run =>
    obtain ⟨v₁, hload, hrest⟩ := made_cons.mp hmade
    obtain ⟨v₂, hbuild, hrest⟩ := made_cons.mp hrest
    obtain rfl := made_nil.mp hrest
    rw [Action.bind_of_ok hload]
    dsimp only
    rw [Action.bind_of_ok hbuild]
    rfl

theorem exists_rebuilt (steps : Steps) (r : Responder) (v : Workspace) :
    ∃ calls r' result w, Rebuilt r calls r' result ∧ Made steps calls v w := by
  cases hload : steps.load v with
  | error e v₁ =>
    exact ⟨_, _, _, v₁, .unloaded e, .cons (Action.attempt_of_error hload) .nil⟩
  | ok config v₁ =>
    have hloaded := Action.attempt_of_ok hload
    cases hbuild : steps.build config v₁ with
    | error e v₂ =>
      exact ⟨_, _, _, v₂, .unbuilt config e,
        .cons hloaded (.cons (Action.attempt_of_error hbuild) .nil)⟩
    | ok run v₂ =>
      exact ⟨_, _, _, v₂, .built config run,
        .cons hloaded (.cons (Action.attempt_of_ok hbuild) .nil)⟩

theorem perform_year (h : steps'.year = steps.year) (r : Responder) (reaction : Reaction) :
    r.perform steps' reaction = r.perform steps reaction := by
  cases reaction with
  | copy source target => rw [Responder.perform, Responder.perform, h]
  | _ => rfl

theorem respond_rebuild {e : Event} {source : Path}
    (h : react r.layout e w = .ok (.rebuild source)) : ∃ v, v.tree = w.tree ∧
      v.current = w.current ∧ ∀ steps r' result w', r.rebuild steps v = .ok (r', result) w' →
        r.respond steps e w = .ok (r', result.map some) w' := by
  refine ⟨{ w with log := w.log ++ [⟨.info, "File changed: ".toList ++ source.print, none⟩] },
    rfl, rfl, fun steps r' result w' hrebuild => ?_⟩
  unfold Responder.respond
  have hask : Action.ask (react r.layout e) w = .ok (.rebuild source) w := by rw [Action.ask, h]
  rw [Action.bind_of_ok (Action.attempt_of_ok hask)]
  dsimp only
  have hlog : Action.log .info ("File changed: ".toList ++ source.print) none w = .ok () _ :=
    Action.log_eq_ok.mpr rfl
  rw [Action.bind_of_ok hlog, Action.bind_of_ok hrebuild]
  rfl

/-- An event that starts no build is answered without the steps, whose year is all
that shows, and the responder stays as it is. -/
theorem respond_plain {e : Event} (hno : ∀ source, react r.layout e w ≠ .ok (.rebuild source))
    (steps : Steps) : ∃ result w', (∀ run, result ≠ .ok (some run)) ∧
      ∀ steps' : Steps, steps'.year = steps.year →
        r.respond steps' e w = .ok (r, result) w' := by
  cases hreact : react r.layout e w with
  | error f =>
    refine ⟨.error f, w, by simp, fun steps' _ => ?_⟩
    unfold Responder.respond
    have hask : Action.ask (react r.layout e) w = .error f w := by rw [Action.ask, hreact]
    rw [Action.bind_of_ok (Action.attempt_of_error hask)]
    rfl
  | ok reaction =>
    have hask : Action.ask (react r.layout e) w = .ok reaction w := by rw [Action.ask, hreact]
    have hplain (steps' : Steps) : r.respond steps' e w = (do
        let result ← Action.attempt (r.perform steps' reaction)
        return (r, result.map fun _ => (none : Option Run)) : Action _) w := by
      unfold Responder.respond
      rw [Action.bind_of_ok (Action.attempt_of_ok hask)]
      cases reaction with
      | rebuild source => exact absurd hreact (hno source)
      | _ => rfl
    cases hperform : r.perform steps reaction w with
    | ok u w' =>
      refine ⟨.ok none, w', by simp, fun steps' hyear => ?_⟩
      rw [hplain, perform_year hyear, Action.bind_of_ok (Action.attempt_of_ok hperform)]
      rfl
    | error f w' =>
      refine ⟨.error f, w', by simp, fun steps' hyear => ?_⟩
      rw [hplain, perform_year hyear, Action.bind_of_ok (Action.attempt_of_error hperform)]
      rfl

theorem tellsOfSource_of_react {layout : Layout} {e : Event} {source : Path}
    (h : react layout e w = .ok (.rebuild source)) : TellsOfSource layout w e := by
  rcases react_ok h with ⟨-, hreaction⟩ | ⟨way, hway, hasks⟩
  · cases hreaction
  obtain ⟨hne, hlocation⟩ := wayOf_ok (eventWay_eq hway).1
  obtain ⟨dir, n, rfl⟩ := (List.eq_nil_or_concat' way).resolve_left hne
  generalize hreaction : Reaction.rebuild source = reaction at hasks
  generalize hkind : e.kind = k at hasks
  cases hasks with
  | @write k b hk hfile =>
    cases b with
    | false => cases hreaction
    | true =>
      have hthere := Workspace.bytes_of_isFile hfile
      rw [Asset.location_along, ← hlocation] at hthere
      have hname : (along layout.source (dir ++ [n])).name = n.text := by
        rw [Asset.along_eq, List.map_append, ← List.append_assoc]
        simp [Path.name]
        rfl
      rw [if_pos rfl, writeReaction, hname] at hreaction
      refine ⟨hkind ▸ hk, dir, n, hlocation, hthere, ?_⟩
      split at hreaction
      · cases hreaction
      · split at hreaction
        · cases hreaction
        · next hplain =>
          split at hreaction
          · next htypes => exact ⟨htypes, Bool.eq_false_of_not_eq_true hplain⟩
          · cases hreaction
  | kept => cases hreaction
  | @removed p b => cases b <;> cases hreaction
  | @directoryRemoved b => cases b <;> cases hreaction
  | @directoryAdded b => cases b <;> cases hreaction

end

/-! ### The books -/

section

variable {steps : Steps} {r r' : Responder} {v w : Workspace} {past calls : List Call}

theorem Fresh.snoc {call : Call} (h : Fresh calls)
    (hcall : ∀ config outcome, call = .build config outcome →
      calls.getLast? = some (.load (.ok config))) : Fresh (calls ++ [call]) := by
  intro earlier config outcome later heq
  obtain rfl | ⟨later, last, rfl⟩ := List.eq_nil_or_concat' later
  · obtain ⟨rfl, hlast⟩ := List.append_inj' heq rfl
    exact hcall config outcome (List.singleton_inj.mp hlast)
  · rw [← List.cons_append, ← List.append_assoc] at heq
    exact h earlier config outcome later (List.append_inj' heq rfl).1

namespace Books

theorem unloaded (h : Books past r) (e : Failure) : Books (past ++ [.load (.error e)]) r where
  runs := by simp [h.runs, Call.built?]
  fresh := h.fresh.snoc (by simp)
  config := by simp [h.config, Call.loaded?]

theorem loaded (h : Books past r) (config : Config) :
    Books (past ++ [.load (.ok config)]) { r with config } where
  runs := by simp [h.runs, Call.built?]
  fresh := h.fresh.snoc (by simp)
  config := by simp [Call.loaded?]

theorem unbuilt (h : Books past r) (hlast : past.getLast? = some (.load (.ok r.config)))
    (e : Failure) : Books (past ++ [.build r.config (.error e)]) r where
  runs := by simp [h.runs, Call.built?]
  fresh := h.fresh.snoc fun _ _ heq => by cases heq; exact hlast
  config := by simp [h.config, Call.loaded?]

theorem built (h : Books past r) (hlast : past.getLast? = some (.load (.ok r.config)))
    (run : Run) :
    Books (past ++ [.build r.config (.ok run)]) { r with runs := r.runs ++ [run] } where
  runs := by simp [h.runs, Call.built?]
  fresh := h.fresh.snoc fun _ _ heq => by cases heq; exact hlast
  config := by simp [h.config, Call.loaded?]

theorem rebuilt {result : Except Failure Run} (h : Books past r)
    (hrebuilt : Rebuilt r calls r' result) : Books (past ++ calls) r' := by
  cases hrebuilt with
  | unloaded e => exact h.unloaded e
  | unbuilt config e =>
    have := (h.loaded config).unbuilt List.getLast?_concat e
    rwa [List.append_assoc] at this
  | built config run =>
    have := (h.loaded config).built List.getLast?_concat run
    rwa [List.append_assoc] at this

end Books

theorem Rebuilt.returned {result : Except Failure Run} (h : Rebuilt r calls r' result)
    (run : Run) : result.map some = .ok (some run) ↔ r'.runs = r.runs ++ [run] := by
  cases h with
  | unloaded e => simp [Except.map]
  | unbuilt config e => simp [Except.map]
  | built config run' => simp [Except.map]

theorem Rebuilt.once {result : Except Failure Run} (h : Rebuilt r calls r' result) :
    calls.countP Call.isLoad ≤ 1 ∧ calls.countP (!Call.isLoad ·) ≤ 1 := by
  cases h <;> simp [Call.isLoad, List.countP_cons]

theorem exists_record (r : Responder) (turn : Turn) : ∃ x : Record, x.turn = turn ∧
    x.before = r ∧ x.Holds ∧ x.Moderate ∧
    ∀ past, Books past r → Books (past ++ x.calls) x.after := by
  obtain ⟨steps, v, request⟩ := turn
  cases request with
  | rebuild =>
    obtain ⟨calls, r', result, w, hrebuilt, hmade⟩ := exists_rebuilt steps r v
    refine ⟨⟨⟨steps, v, .rebuild⟩, r, calls, result.map some, r'⟩, rfl, rfl,
      ⟨v, w, rfl, rfl, fun _ => hmade, fun steps' _ hsame => ?_⟩,
      ⟨hrebuilt.returned, by simp, by simp, by simp⟩, fun past h => h.rebuilt hrebuilt⟩
    have hrebuild := rebuild_of_made hrebuilt (hsame w hmade)
    exact Action.bind_of_ok hrebuild
  | event e =>
    by_cases hreact : ∃ source, react r.layout e v = .ok (.rebuild source)
    · obtain ⟨source, hsource⟩ := hreact
      obtain ⟨u, htree, hcurrent, hrespond⟩ := respond_rebuild hsource
      obtain ⟨calls, r', result, w, hrebuilt, hmade⟩ := exists_rebuilt steps r u
      exact ⟨⟨⟨steps, v, .event e⟩, r, calls, result.map some, r'⟩, rfl, rfl,
        ⟨u, w, htree, hcurrent, fun _ => hmade, fun steps' _ hsame =>
          hrespond steps' r' result w (rebuild_of_made hrebuilt (hsame w hmade))⟩,
        ⟨hrebuilt.returned, fun _ _ => hrebuilt.once.1, fun _ _ => hrebuilt.once.2,
          fun _ he _ => Request.event.inj he ▸ tellsOfSource_of_react hsource⟩,
        fun past h => h.rebuilt hrebuilt⟩
    · obtain ⟨result, w, hnone, hrespond⟩ :=
        respond_plain (fun source hsource => hreact ⟨source, hsource⟩) steps
      exact ⟨⟨⟨steps, v, .event e⟩, r, [], result, r⟩, rfl, rfl,
        ⟨v, w, rfl, rfl, by simp, fun steps' hyear _ => hrespond steps' hyear⟩,
        ⟨fun run => by simp [hnone], by simp, by simp, by simp⟩, fun past h => by simpa using h⟩

theorem exists_records (turns : List Turn) (h : Books past r) : ∃ records r',
    records.map Record.turn = turns ∧ Recounts r records r' ∧
      Books (past ++ records.flatMap Record.calls) r' ∧ ∀ x ∈ records, x.Moderate := by
  induction turns generalizing past r with
  | nil => exact ⟨[], r, rfl, rfl, by simpa using h, by simp⟩
  | cons turn turns ih =>
    obtain ⟨x, rfl, rfl, hholds, hmoderate, hbooks⟩ := exists_record r turn
    obtain ⟨records, r', rfl, hrecounts, hall, hmoderates⟩ := ih (hbooks past h)
    refine ⟨x :: records, r', rfl, ⟨rfl, hholds, hrecounts⟩, ?_,
      List.forall_mem_cons.mpr ⟨hmoderate, hmoderates⟩⟩
    rwa [List.flatMap_cons, ← List.append_assoc]

/-- Whatever a responder is asked in a row, and whatever its loads and builds come
to, its runs and its configuration are what its calls have made of them. -/
theorem responder_books {layout : Layout} (hcreate : Responder.create steps layout v = .ok r w)
    (turns : List Turn) : (Call.load (.ok r.config)).Leads steps v w ∧ r.layout = layout ∧
      ∃ records r', records.map Record.turn = turns ∧ Recounts r records r' ∧
        Books (.load (.ok r.config) :: records.flatMap Record.calls) r' ∧
        ∀ x ∈ records, x.Moderate := by
  obtain ⟨config, u, hload, hreturn⟩ := Action.bind_eq_ok.mp hcreate
  obtain ⟨rfl, rfl⟩ := Action.pure_eq_ok.mp hreturn
  have hnone : Fresh [] := by simp [Fresh]
  have hbooks : Books [.load (.ok config)] ⟨layout, config, []⟩ :=
    ⟨rfl, hnone.snoc (by simp), rfl⟩
  exact ⟨Action.attempt_of_ok hload, rfl, exists_records turns hbooks⟩

end

/-! A project with one script, which is built and then cannot be built. -/

def sampleScript : Workspace where
  tree := (Except.toOption do
    let t ← Tree.empty.makeDirectory [Layout.sourceName]
    t.writeFile [Layout.sourceName, ⟨"Main.TS".toList, by decide⟩] ByteArray.empty).getD .empty

def sampleTurns : List Turn :=
  let steps : Steps := ⟨pure { header := some [] }, fun _ => pure {}, 2024⟩
  [⟨steps, sampleScript, .event ⟨.change, "src/Main.TS".toList⟩⟩,
    ⟨{ steps with load := pure {}, build := fun _ => throw .notText }, sampleScript, .rebuild⟩]

theorem Record.Holds.answer {x : Record} (h : x.Holds) :
    ((x.before.answer x.turn.steps x.turn.request).result? x.turn.workspace).map (·.1) =
      some (x.after, x.result) := by
  obtain ⟨v, w, -, -, -, hanswer⟩ := h
  rw [Action.result_eq_some.mpr (hanswer x.turn.steps rfl fun _ h => h), Option.map_some]

theorem sample_books :
    let r : Responder := ⟨Layout.choose none none, { footer := some [] }, []⟩
    ∃ records r', records.map Record.turn = sampleTurns ∧ Recounts r records r' ∧
      Books (.load (.ok r.config) :: records.flatMap Record.calls) r' ∧
      r'.config = {} ∧ r'.runs = [{}] := by
  intro r
  have hcreate : Responder.create ⟨pure r.config, fun _ => pure {}, 2024⟩ r.layout sampleScript =
      .ok r sampleScript := rfl
  obtain ⟨-, -, records, r', hturns, hrecounts, hbooks, -⟩ := responder_books hcreate sampleTurns
  refine ⟨records, r', hturns, hrecounts, hbooks, ?_⟩
  obtain ⟨x, rest, rfl, hx, hrest⟩ := List.map_eq_cons_iff.mp hturns
  obtain ⟨y, rest, rfl, hy, hrest⟩ := List.map_eq_cons_iff.mp hrest
  obtain rfl := List.map_eq_nil_iff.mp hrest
  obtain ⟨hbefore, hxholds, hbetween, hyholds, rfl⟩ := hrecounts
  have hfirst := hxholds.answer
  have hsecond := hyholds.answer
  rw [hbefore, hx] at hfirst
  have hmid : x.after = { r with config := { header := some [] }, runs := [{}] } :=
    congrArg Prod.fst (Option.some.inj (hfirst.symm.trans (by decide +kernel :
      _ = some ({ r with config := { header := some [] }, runs := [{}] }, .ok (some {})))))
  rw [hbetween, hmid, hy] at hsecond
  have hend : y.after = { r with config := {}, runs := [{}] } :=
    congrArg Prod.fst (Option.some.inj (hsecond.symm.trans (by decide +kernel :
      _ = some ({ r with config := {}, runs := [{}] }, .error .notText))))
  exact ⟨congrArg Responder.config hend, congrArg Responder.runs hend⟩

end ModBuild.Watch
