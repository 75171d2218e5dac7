import ModBuild.Asset
import ModBuild.Proofs.Tree.Files

/-!
# What actions do to files

An action leads from one workspace to another by changes of files, and it may
add directories. Both are recorded for the operations that a build is made of,
and they add up along a sequence: changes are appended, and the directories
that may be new stay the same set. Failed operations leave what was done before
them, so where an action may fail its last workspace is what is spoken of.
-/

set_option autoImplicit false

namespace ModBuild

theorem mapM_eq_pure {m : Type → Type} [Monad m] [LawfulMonad m] {α β : Type} {f : α → m β}
    {g : α → β} {xs : List α} (h : ∀ x ∈ xs, f x = pure (g x)) :
    xs.mapM f = pure (xs.map g) := by
  induction xs with
  | nil => rfl
  | cons x xs ih =>
    obtain ⟨hx, hxs⟩ := List.forall_mem_cons.mp h
    rw [List.mapM_cons, hx, ih hxs, pure_bind, pure_bind]
    rfl

theorem mapM_answers {α β ε : Type} {f : α → Except ε β} {xs : List α} {ys : List β}
    (h : xs.mapM f = .ok ys) :
    (∀ x ∈ xs, ∃ y ∈ ys, f x = .ok y) ∧ ∀ y ∈ ys, ∃ x ∈ xs, f x = .ok y := by
  induction xs generalizing ys with
  | nil =>
    cases h
    simp
  | cons x xs ih =>
    rw [List.mapM_cons] at h
    cases hx : f x with
    | error e => rw [hx] at h; cases h
    | ok y =>
      rw [hx] at h
      cases hs : xs.mapM f with
      | error e => rw [hs] at h; cases h
      | ok rest =>
        rw [hs] at h
        cases h
        obtain ⟨hl, hr⟩ := ih hs
        constructor
        · rintro z hz
          rcases List.mem_cons.mp hz with rfl | hz
          · exact ⟨y, by simp, hx⟩
          · obtain ⟨b, hb, hf⟩ := hl z hz
            exact ⟨b, by simp [hb], hf⟩
        · rintro b hb
          rcases List.mem_cons.mp hb with rfl | hb
          · exact ⟨x, by simp, hx⟩
          · obtain ⟨z, hz, hf⟩ := hr b hb
            exact ⟨z, by simp [hz], hf⟩

theorem mapM_failed {α β ε : Type} {f : α → Except ε β} {e : ε} {xs : List α}
    (h : xs.mapM f = .error e) : ∃ x ∈ xs, f x = .error e := by
  induction xs with
  | nil => cases h
  | cons x xs ih =>
    rw [List.mapM_cons] at h
    cases hx : f x with
    | error e' =>
      rw [hx] at h
      cases h
      exact ⟨x, by simp, hx⟩
    | ok y =>
      rw [hx] at h
      cases hs : xs.mapM f with
      | error e' =>
        rw [hs] at h
        cases h
        obtain ⟨z, hz, he⟩ := ih hs
        exact ⟨z, by simp [hz], he⟩
      | ok ys => rw [hs] at h; cases h

def Path.start (current : Location) (p : Path) : Location := if p.isAbsolute then [] else current

namespace Action

variable {α β : Type}

def final (a : Action α) (w : Workspace) : Workspace :=
  match a w with
  | .ok _ w' => w'
  | .error _ w' => w'

def result? (a : Action α) (w : Workspace) : Option (α × Workspace) :=
  match a w with
  | .ok x w' => some (x, w')
  | .error _ _ => none

theorem result_eq_some {a : Action α} {w w' : Workspace} {x : α} :
    a.result? w = some (x, w') ↔ a w = .ok x w' := by
  rw [result?]
  cases a w with
  | ok y v => simp
  | error e v => simp

theorem final_of_ok {a : Action α} {w w' : Workspace} {x : α} (h : a w = .ok x w') :
    a.final w = w' := by
  rw [final, h]

theorem final_of_error {a : Action α} {w w' : Workspace} {e : Failure} (h : a w = .error e w') :
    a.final w = w' := by
  rw [final, h]

theorem bind_of_ok {a : Action α} {f : α → Action β} {w w' : Workspace} {x : α}
    (h : a w = .ok x w') : (a >>= f) w = f x w' := by
  show EStateM.bind a f w = f x w'
  rw [EStateM.bind, h]

theorem bind_of_error {a : Action α} {f : α → Action β} {w w' : Workspace} {e : Failure}
    (h : a w = .error e w') : (a >>= f) w = .error e w' := by
  show EStateM.bind a f w = .error e w'
  rw [EStateM.bind, h]

theorem bind_eq_ok {a : Action α} {f : α → Action β} {w w'' : Workspace} {y : β} :
    (a >>= f) w = .ok y w'' ↔ ∃ x w', a w = .ok x w' ∧ f x w' = .ok y w'' := by
  constructor
  · intro h
    cases ha : a w with
    | ok x w' => exact ⟨x, w', rfl, by rwa [bind_of_ok ha] at h⟩
    | error e w' => rw [bind_of_error ha] at h; cases h
  · rintro ⟨x, w', ha, hf⟩
    rwa [bind_of_ok ha]

theorem pure_eq_ok {x y : α} {w w' : Workspace} :
    (pure x : Action α) w = .ok y w' ↔ x = y ∧ w = w' := by
  show EStateM.Result.ok x w = .ok y w' ↔ x = y ∧ w = w'
  rw [EStateM.Result.ok.injEq]

theorem throw_ne_ok {e : Failure} {y : α} {w w' : Workspace} :
    (throw e : Action α) w ≠ .ok y w' := nofun

theorem ask_eq_ok {q : Workspace → Except Failure α} {w w' : Workspace} {x : α} :
    ask q w = .ok x w' ↔ q w = .ok x ∧ w = w' := by
  rw [ask]
  cases q w <;> simp

theorem ask_final (q : Workspace → Except Failure α) (w : Workspace) : (ask q).final w = w := by
  rw [final, ask]
  cases q w <;> rfl

theorem change_eq_ok {step : Workspace → Except Failure Workspace} {w w' : Workspace} {u : Unit} :
    change step w = .ok u w' ↔ step w = .ok w' := by
  rw [change]
  cases step w <;> simp

theorem change_eq_error {step : Workspace → Except Failure Workspace} {w w' : Workspace}
    {e : Failure} : change step w = .error e w' ↔ step w = .error e ∧ w = w' := by
  rw [change]
  cases step w <;> simp

theorem attempt_of_ok {a : Action α} {w w' : Workspace} {x : α} (h : a w = .ok x w') :
    attempt a w = .ok (.ok x) w' := by
  rw [attempt, h]

theorem attempt_of_error {a : Action α} {w w' : Workspace} {e : Failure} (h : a w = .error e w') :
    attempt a w = .ok (.error e) w' := by
  rw [attempt, h]

theorem attempt_eq_ok {a : Action α} {w w' : Workspace} {r : Except Failure α} :
    attempt a w = .ok r w' ↔
      (∃ x, r = .ok x ∧ a w = .ok x w') ∨ ∃ e, r = .error e ∧ a w = .error e w' := by
  cases h : a w with
  | ok x w₁ => rw [attempt_of_ok h]; simp [eq_comm]
  | error e w₁ => rw [attempt_of_error h]; simp [eq_comm]

theorem of_andThen {a : Action α} {after : Action Unit} {w w'' : Workspace} {x : α}
    (h : andThen a after w = .ok x w'') : ∃ w' u, a w = .ok x w' ∧ after w' = .ok u w'' := by
  unfold andThen at h
  cases ha : a w with
  | error e w' =>
    rw [ha] at h
    dsimp only at h
    cases hf : after w' <;> rw [hf] at h <;> cases h
  | ok y w' =>
    rw [ha] at h
    dsimp only at h
    cases hf : after w' with
    | error e w₂ => rw [hf] at h; cases h
    | ok u w₂ =>
      rw [hf] at h
      cases h
      exact ⟨w', u, rfl, hf⟩

theorem andThen_of_ok {a : Action α} {after : Action Unit} {w w' w'' : Workspace} {x : α} {u : Unit}
    (h : a w = .ok x w') (hafter : after w' = .ok u w'') : andThen a after w = .ok x w'' := by
  rw [andThen, h]
  dsimp only
  rw [hafter]

theorem log_eq_ok {level : Level} {m : Text} {c : Option Failure} {w w' : Workspace} {u : Unit} :
    log level m c w = .ok u w' ↔ w' = { w with log := w.log ++ [⟨level, m, c⟩] } := by
  show EStateM.Result.ok () _ = .ok u w' ↔ _
  rw [EStateM.Result.ok.injEq]
  simp [eq_comm]

end Action

/-- A workspace leads to another one by changes of files, no directory gets
lost, and a new one is where `D` allows it. -/
structure Workspace.Leads (w : Workspace) (D : Location → Prop) (c : Changes) (w' : Workspace) :
    Prop where
  current : w'.current = w.current
  files : ∀ l, w'.tree.file? l = overlay c w.tree.file? l
  kept : ∀ l, w.tree.get? l = some .directory → w'.tree.get? l = some .directory
  added : ∀ l, w'.tree.get? l = some .directory → w.tree.get? l = some .directory ∨ D l

namespace Workspace.Leads

variable {w w' w'' : Workspace} {D E : Location → Prop} {c c' : Changes}

theorem refl (w : Workspace) (D : Location → Prop) : w.Leads D [] w :=
  ⟨rfl, fun _ => rfl, fun _ h => h, fun _ h => .inl h⟩

theorem of_tree (ht : w'.tree = w.tree) (hc : w'.current = w.current) : w.Leads D [] w' :=
  ⟨hc, fun _ => by rw [ht]; rfl, fun _ h => by rwa [ht], fun _ h => .inl (by rwa [ht] at h)⟩

theorem trans (h : w.Leads D c w') (h' : w'.Leads D c' w'') : w.Leads D (c ++ c') w'' where
  current := h'.current.trans h.current
  files l := by
    rw [h'.files, overlay_append]
    exact congrArg (fun f => overlay c' f l) (funext h.files)
  kept l hl := h'.kept l (h.kept l hl)
  added l hl := by
    rcases h'.added l hl with hl | hl
    · exact h.added l hl
    · exact .inr hl

theorem mono (h : w.Leads D c w') (hDE : ∀ l, D l → E l) : w.Leads E c w' :=
  ⟨h.current, h.files, h.kept, fun l hl => (h.added l hl).imp_right (hDE l)⟩

theorem bind {α β : Type} {a : Action α} {f : α → Action β} (ha : w.Leads D [] (a.final w))
    (hf : ∀ x (v : Workspace), v.current = w.current → v.Leads D [] ((f x).final v)) :
    w.Leads D [] ((a >>= f).final w) := by
  cases h : a w with
  | ok x v =>
    rw [Action.final_of_ok h] at ha
    rw [Action.final, Action.bind_of_ok h]
    exact ha.trans (hf x v ha.current)
  | error e v =>
    rw [Action.final_of_error h] at ha
    rw [Action.final, Action.bind_of_error h]
    exact ha

theorem file_untouched (h : w.Leads D c w') {l : Location} (hl : ∀ x ∈ c, x.1 ≠ l) :
    w'.tree.file? l = w.tree.file? l := by
  rw [h.files, overlay_untouched c _ l hl]

theorem get_untouched (h : w.Leads D c w') {l : Location} (hl : ∀ x ∈ c, x.1 ≠ l) (hD : ¬ D l) :
    w'.tree.get? l = w.tree.get? l := by
  apply Tree.get_of_file (h.file_untouched hl)
  constructor
  · intro hd
    exact (h.added l hd).resolve_right hD
  · exact h.kept l

end Workspace.Leads

namespace Workspace

def Stands (w : Workspace) (p : Path) : Prop := w.isDirectory p = .ok true

instance (w : Workspace) (p : Path) : Decidable (w.Stands p) :=
  match h : w.isDirectory p with
  | .ok true => .isTrue h
  | .ok false => .isFalse fun h' => by rw [Stands, h] at h'; cases h'
  | .error _ => .isFalse fun h' => by rw [Stands, h] at h'; cases h'

theorem resolve_ok {w : Workspace} {p : Path} {l : Location} (h : w.resolve p = .ok l) :
    '\x00' ∉ p.print ∧ w.tree.resolve w.current p = .ok l ∧ l = p.location w.current := by
  rw [resolve] at h
  split at h
  · cases h
  · next hn =>
    split at h
    · next m hm =>
      cases h
      exact ⟨hn, hm, Tree.resolve_eq_location hm⟩
    · cases h

theorem entry_of_isDirectory {w : Workspace} {p : Path} {b : Bool} (h : w.isDirectory p = .ok b) :
    ∃ e, w.entry? p = .ok e ∧ (b = true ↔ e = some .directory) := by
  rw [isDirectory] at h
  cases he : w.entry? p with
  | error f => rw [he] at h; cases h
  | ok e =>
    rw [he] at h
    cases h
    exact ⟨e, rfl, by simp⟩

theorem entry_of_isFile {w : Workspace} {p : Path} {b : Bool} (h : w.isFile p = .ok b) :
    ∃ e, w.entry? p = .ok e ∧ (b = true ↔ ∃ bytes, e = some (.file bytes)) := by
  rw [isFile] at h
  cases he : w.entry? p with
  | error f => rw [he] at h; cases h
  | ok e =>
    rw [he] at h
    rcases e with _ | _ | bytes <;> cases h <;> exact ⟨_, rfl, by simp⟩

theorem entry_of_occupied {w : Workspace} {p : Path} {b : Bool} (h : w.occupied p = .ok b) :
    ∃ e, w.entry? p = .ok e ∧ (b = true ↔ e ≠ none) := by
  rw [occupied] at h
  cases he : w.entry? p with
  | error f => rw [he] at h; cases h
  | ok e =>
    rw [he] at h
    cases h
    exact ⟨e, rfl, by cases e <;> simp⟩

theorem resolve_of_entry {w : Workspace} {p : Path} {e : Entry} (h : w.entry? p = .ok (some e)) :
    w.resolve p = .ok (p.location w.current) ∧ w.tree.get? (p.location w.current) = some e := by
  unfold entry? at h
  split at h
  · next l hl =>
    obtain ⟨-, -, rfl⟩ := resolve_ok hl
    exact ⟨hl, Except.ok.inj h⟩
  · cases h
  · cases h

theorem file_of_isFile {w : Workspace} {p : Path} (h : w.isFile p = .ok true) :
    w.resolve p = .ok (p.location w.current) ∧
      ∃ bytes, w.tree.get? (p.location w.current) = some (.file bytes) := by
  obtain ⟨e, he, hb⟩ := entry_of_isFile h
  obtain ⟨bytes, rfl⟩ := hb.mp rfl
  obtain ⟨hresolve, hget⟩ := resolve_of_entry he
  exact ⟨hresolve, bytes, hget⟩

theorem bytes_of_isFile {w : Workspace} {p : Path} (h : w.isFile p = .ok true) :
    w.tree.file? (p.location w.current) ≠ none := by
  obtain ⟨-, bytes, hget⟩ := file_of_isFile h
  rw [(w.tree.file_eq_some _ bytes).mpr hget]
  simp

theorem Stands.directory {w : Workspace} {p : Path} (h : w.Stands p) :
    w.tree.get? (p.location w.current) = some .directory := by
  obtain ⟨e, he, hb⟩ := entry_of_isDirectory h
  rw [hb.mp rfl] at he
  exact (resolve_of_entry he).2

theorem Stands.resolve {w : Workspace} {p : Path} (h : w.Stands p) :
    w.resolve p = .ok (p.location w.current) := by
  obtain ⟨e, he, hb⟩ := entry_of_isDirectory h
  rw [hb.mp rfl] at he
  exact (resolve_of_entry he).1

theorem Stands.reach {w : Workspace} {p : Path} (h : w.Stands p) :
    w.tree.reach (if p.isAbsolute then [] else w.current) p.segments =
      .ok (p.location w.current) := by
  obtain ⟨-, hr, -⟩ := resolve_ok h.resolve
  rw [Tree.resolve] at hr
  split at hr
  · cases hr
  · exact hr

theorem resolve_of_way {w w' : Workspace} {p : Path} {l : Location} (hc : w'.current = w.current)
    (hway : ∀ way, way <+: p.segments →
      w.tree.get? (Path.settle (p.start w.current) way) = some .directory →
      w'.tree.get? (Path.settle (p.start w.current) way) = some .directory)
    (h : w.resolve p = .ok l) : w'.resolve p = .ok l := by
  obtain ⟨hn, hr, -⟩ := resolve_ok h
  have hr' : w'.tree.resolve w'.current p = .ok l := by
    rw [Tree.resolve] at hr ⊢
    split at hr
    · cases hr
    · next hlen =>
      rw [if_neg hlen, hc]
      exact Tree.reach_of_way hway hr
  rw [Workspace.resolve, if_neg hn, hr']

theorem resolve_kept {w w' : Workspace} {p : Path} {l : Location} (hc : w'.current = w.current)
    (hk : ∀ l, w.tree.get? l = some .directory → w'.tree.get? l = some .directory)
    (h : w.resolve p = .ok l) : w'.resolve p = .ok l :=
  resolve_of_way hc (fun _ _ hd => hk _ hd) h

theorem Stands.of_resolve {w : Workspace} {p : Path} {l : Location} (h : w.resolve p = .ok l)
    (hd : w.tree.get? l = some .directory) : w.Stands p := by
  rw [Stands, isDirectory, entry?, h]
  simp only [hd]
  rfl

theorem Stands.kept {w w' : Workspace} {p : Path} (h : w.Stands p) (hc : w'.current = w.current)
    (hk : ∀ l, w.tree.get? l = some .directory → w'.tree.get? l = some .directory) :
    w'.Stands p := .of_resolve (resolve_kept hc hk h.resolve) (hk _ h.directory)

theorem Stands.leads {w w' : Workspace} {p : Path} {D : Location → Prop} {c : Changes}
    (h : w.Stands p) (hl : w.Leads D c w') : w'.Stands p := h.kept hl.current hl.kept

end Workspace

end ModBuild
