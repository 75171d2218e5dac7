import ModBuild.Proofs.Watch.Deletion
import ModBuild.Proofs.Watch.Delivery

/-!
# Removals in any order

Each removal is about one place of the output and is decided by what stands
there. An earlier removal changes that answer only for what it has taken away
itself, as long as the project does not reach its own root through directories of
the output. So what removals leave depends on which of them there are, and on
neither their order nor how often each one comes.
-/

set_option autoImplicit false

namespace ModBuild

theorem Path.prefix_settle {l : Location} {ss : List Segment} (h : ∀ s ∈ ss, s ≠ .up) :
    l <+: settle l ss := by
  induction ss generalizing l with
  | nil => exact List.prefix_refl l
  | cons s ss ih =>
    obtain ⟨hs, hss⟩ := List.forall_mem_cons.mp h
    cases s with
    | up => exact absurd rfl hs
    | name n => exact (List.prefix_append l [n]).trans (ih hss)

namespace Layout

def Beneath (layout : Layout) (current l : Location) : Prop :=
  ∃ n rest, l = layout.output.location current ++ n :: rest

/-- On the way to its root, a project does not pass through what is below its
output. -/
def Aside (layout : Layout) (current : Location) : Prop :=
  ∀ way, way <+: layout.root.segments →
    ¬ layout.Beneath current (Path.settle (layout.root.start current) way)

theorem aside_of_names {layout : Layout} (h : ∀ s ∈ layout.root.segments, s ≠ .up)
    (current : Location) : layout.Aside current := by
  rintro way ⟨more, hmore⟩ ⟨n, rest, hl⟩
  have hroot : Path.settle (layout.root.start current) way <+: layout.root.location current := by
    rw [Path.location, ← hmore, Path.settle_append]
    refine Path.prefix_settle fun s hs => h s ?_
    rw [← hmore]
    exact List.mem_append_right way hs
  have hlength := hroot.length_le
  rw [hl, output_location] at hlength
  simp only [List.length_append, List.length_cons] at hlength
  omega

end Layout

namespace Watch

open Asset (along)

def counterpart? (layout : Layout) (current : Location) (e : Event) : Option Path :=
  (eventWay? layout current e).bind fun own =>
    match e.kind with
    | .unlink => (removedWay? own).map (along layout.output)
    | .unlinkDir => some (along layout.output own)
    | _ => none

/-- A removal takes away what is at a location: the file that it is about, or
what is in the directory that it is about, itself included. -/
inductive Takes (layout : Layout) (w : Workspace) (e : Event) (l : Location) : Prop
  | file {p : Path} (hk : e.kind = .unlink) (hp : counterpart? layout w.current e = some p)
      (hthere : w.isFile p = .ok true) (hl : p.location w.current = l)
  | directory {p : Path} (hk : e.kind = .unlinkDir)
      (hp : counterpart? layout w.current e = some p) (hthere : w.Stands p)
      (hl : p.location w.current <+: l)

/-- It cannot be told what stands at the place that a removal is about: its path
or a name in it is longer than the file system takes. -/
def Refused (layout : Layout) (w : Workspace) (e : Event) : Prop :=
  ∃ p, counterpart? layout w.current e = some p ∧ w.entry? p = .error (.fault .nameTooLong)

section

variable {steps : Steps} {layout : Layout} {r : Responder} {e : Event} {w v : Workspace}
  {p : Path} {current l : Location}

theorem counterpart_along (h : counterpart? layout current e = some p) :
    ∃ n rest, p = along layout.output (n :: rest) := by
  obtain ⟨own, hown, h⟩ := Option.bind_eq_some_iff.mp h
  have hne : own ≠ [] := (wayOf_ok (eventWay_eq hown).1).1
  split at h
  · obtain ⟨way, hway, rfl⟩ := Option.map_eq_some_iff.mp h
    obtain ⟨n, -, hmap⟩ := Option.bind_eq_some_iff.mp hway
    obtain ⟨m, -, rfl⟩ := Option.map_eq_some_iff.mp hmap
    obtain ⟨a, rest, ha⟩ := List.exists_cons_of_ne_nil (l := own.dropLast ++ [m]) (by simp)
    exact ⟨a, rest, by rw [ha]⟩
  · obtain ⟨a, rest, ha⟩ := List.exists_cons_of_ne_nil hne
    exact ⟨a, rest, by rw [← ha, Option.some.inj h]⟩
  · cases h

theorem Takes.beneath (h : Takes layout w e l) : layout.Beneath w.current l := by
  cases h with
  | file _ hp _ hl =>
    obtain ⟨n, rest, rfl⟩ := counterpart_along hp
    rw [Asset.location_along] at hl
    exact ⟨n, rest, hl.symm⟩
  | directory _ hp _ hl =>
    obtain ⟨n, rest, rfl⟩ := counterpart_along hp
    rw [Asset.location_along] at hl
    obtain ⟨more, rfl⟩ := hl
    exact ⟨n, rest ++ more, by simp⟩

/-! ### One removal -/

theorem react_unlink (hk : e.kind = .unlink) : react layout e w =
    match counterpart? layout w.current e with
    | none => .ok .ignore
    | some p => do return if ← w.isFile p then .removeFile p else .ignore := by
  unfold react counterpart? eventWay?
  cases hway : wayOf? layout w.current e.path with
  | none => rfl
  | some own =>
    have htarget := targetOfRemoved_along layout.output (wayOf_ok hway).1
    cases hr : reserved.contains (Text.lower (written own)) with
    | true => simp only [Option.filter_some, hr]; rfl
    | false =>
      simp only [hk, Option.filter_some, hr, htarget, Bool.not_false, if_true, Option.bind_some]
      cases removedWay? own <;> rfl

theorem react_unlinkDir (hk : e.kind = .unlinkDir) : react layout e w =
    match counterpart? layout w.current e with
    | none => .ok .ignore
    | some p => do return if ← w.isDirectory p then .removeDirectory p else .ignore := by
  unfold react counterpart? eventWay?
  cases hway : wayOf? layout w.current e.path with
  | none => rfl
  | some own =>
    cases hr : reserved.contains (Text.lower (written own)) with
    | true => simp only [Option.filter_some, hr]; rfl
    | false => simp only [hk, Option.filter_some, hr]; rfl

theorem respond_failed {f : Failure} (h : react r.layout e w = .error f) :
    r.respond steps e w = .ok (r, .error f) w := by
  unfold Responder.respond
  have hask : Action.ask (react r.layout e) w = .error f w := by rw [Action.ask, h]
  rw [Action.bind_of_ok (Action.attempt_of_error hask)]
  rfl

theorem respond_performed {reaction : Reaction} (h : react r.layout e w = .ok reaction)
    (hno : ∀ source, reaction ≠ .rebuild source)
    (hperform : r.perform steps reaction w = .ok () v) :
    r.respond steps e w = .ok (r, .ok none) v := by
  unfold Responder.respond
  have hask : Action.ask (react r.layout e) w = .ok reaction w := by rw [Action.ask, h]
  rw [Action.bind_of_ok (Action.attempt_of_ok hask)]
  have hattempt := Action.attempt_of_ok hperform
  cases reaction with
  | rebuild source => exact absurd rfl (hno source)
  | _ => exact Action.bind_of_ok hattempt

theorem perform_removeFile_ok (steps : Steps) (r : Responder) (hf : w.isFile p = .ok true) :
    ∃ w', r.perform steps (.removeFile p) w = .ok () w' ∧ w'.current = w.current ∧
      ∀ m, w'.tree.get? m = if p.location w.current = m then none else w.tree.get? m := by
  obtain ⟨hresolve, bytes, hget⟩ := Workspace.file_of_isFile hf
  have hremove : Action.removeFile p w =
      .ok () { w with tree := w.tree.prune (p.location w.current) } := by
    rw [Action.removeFile, Action.change_eq_ok]
    unfold Workspace.removeFile Workspace.onTree
    rw [hresolve]
    simp [bind, Except.bind, Tree.removeFile, hget, pure, Except.pure]
  exact ⟨_, Action.bind_of_ok hremove, rfl, (Action.removeFile_entries hremove).2.2⟩

theorem perform_removeDirectory_ok (steps : Steps) (r : Responder) (hs : w.Stands p)
    (hne : p.location w.current ≠ []) :
    ∃ w', r.perform steps (.removeDirectory p) w = .ok () w' ∧ w'.current = w.current ∧
      ∀ m, w'.tree.get? m = if p.location w.current <+: m then none else w.tree.get? m := by
  have hremove : Action.removeTree p w =
      .ok () { w with tree := w.tree.prune (p.location w.current) } := by
    rw [Action.removeTree, Action.change_eq_ok]
    unfold Workspace.removeTree Workspace.onTree
    rw [hs.resolve]
    rfl
  exact ⟨_, Action.bind_of_ok hremove, rfl, (Action.removeTree_entries hne hremove).2⟩

/-- What a removal comes to: it takes away what it is about, or it is refused and
changes nothing. -/
def Answered (layout : Layout) (w : Workspace) (e : Event)
    (result : Except Failure (Option Run)) (w' : Workspace) : Prop :=
  w'.current = w.current ∧
    (∀ l x, w'.tree.get? l = some x ↔ w.tree.get? l = some x ∧ ¬ Takes layout w e l) ∧
    (result = .ok none ∧ ¬ Refused layout w e ∨
      result = .error (.fault .nameTooLong) ∧ w' = w ∧ Refused layout w e)

theorem Answered.unchanged {result : Except Failure (Option Run)}
    (htakes : ∀ l, ¬ Takes layout w e l)
    (h : result = .ok none ∧ ¬ Refused layout w e ∨
      result = .error (.fault .nameTooLong) ∧ Refused layout w e) :
    Answered layout w e result w :=
  ⟨rfl, fun l _ => (and_iff_left (htakes l)).symm, h.imp_right fun h => ⟨h.1, rfl, h.2⟩⟩

theorem Answered.taken {gone : Location → Prop} [DecidablePred gone]
    (hc : v.current = w.current)
    (hget : ∀ l, v.tree.get? l = if gone l then none else w.tree.get? l)
    (htakes : ∀ l, Takes layout w e l ↔ gone l) (hrefused : ¬ Refused layout w e) :
    Answered layout w e (.ok none) v := by
  refine ⟨hc, fun l _ => ?_, .inl ⟨rfl, hrefused⟩⟩
  rw [hget, htakes]
  by_cases hl : gone l
  · simp [hl]
  · simp [hl]

theorem respond_unaddressed (hreact : react r.layout e w = .ok .ignore)
    (hp : counterpart? r.layout w.current e = none) : ∃ result w',
      r.respond steps e w = .ok (r, result) w' ∧ Answered r.layout w e result w' := by
  refine ⟨_, w, respond_ignored hreact, .unchanged (fun l h => ?_) (.inl ⟨rfl, ?_⟩)⟩
  · cases h with
    | file _ hp' => rw [hp] at hp'; cases hp'
    | directory _ hp' => rw [hp] at hp'; cases hp'
  · rintro ⟨p, hp', -⟩
    rw [hp] at hp'
    cases hp'

theorem respond_asked (question : Except Failure Bool) (yes : Reaction)
    (hreact : react r.layout e w = (do return if ← question then yes else .ignore))
    (hfailed : ∀ f, question = .error f → f = .fault .nameTooLong ∧ Refused r.layout w e)
    (hanswered : ∀ b, question = .ok b → ¬ Refused r.layout w e)
    (hno : question ≠ .ok true → ∀ l, ¬ Takes r.layout w e l)
    (hyes : question = .ok true → (∀ source, yes ≠ .rebuild source) ∧
      ∃ w', r.perform steps yes w = .ok () w' ∧ Answered r.layout w e (.ok none) w') :
    ∃ result w', r.respond steps e w = .ok (r, result) w' ∧
      Answered r.layout w e result w' := by
  cases question with
  | error f =>
    obtain ⟨rfl, hrefused⟩ := hfailed f rfl
    exact ⟨_, w, respond_failed hreact, .unchanged (hno (by simp)) (.inr ⟨rfl, hrefused⟩)⟩
  | ok b =>
    have hplain := hanswered b rfl
    cases b with
    | false =>
      exact ⟨_, w, respond_ignored hreact, .unchanged (hno (by simp)) (.inl ⟨rfl, hplain⟩)⟩
    | true =>
      obtain ⟨hrebuild, w', hperform, h⟩ := hyes rfl
      exact ⟨_, w', respond_performed hreact hrebuild hperform, h⟩

theorem refused_of_failed {f : Failure} (hp : counterpart? layout w.current e = some p)
    (h : w.isFile p = .error f ∨ w.isDirectory p = .error f) :
    f = .fault .nameTooLong ∧ Refused layout w e := by
  have hentry : w.entry? p = .error f := by
    cases he : w.entry? p with
    | error f' =>
      rw [Workspace.isFile, Workspace.isDirectory, he] at h
      rcases h with h | h <;> cases h <;> rfl
    | ok x =>
      rw [Workspace.isFile, Workspace.isDirectory, he] at h
      rcases h with h | h
      · rcases x with _ | _ | _ <;> cases h
      · cases h
  obtain rfl := Workspace.entry_refused hentry
  exact ⟨rfl, p, hp, hentry⟩

theorem not_refused {x : Option Entry} (hp : counterpart? layout w.current e = some p)
    (h : w.entry? p = .ok x) : ¬ Refused layout w e := by
  rintro ⟨p', hp', hrefused⟩
  rw [hp] at hp'
  cases hp'
  rw [h] at hrefused
  cases hrefused

theorem takes_unlink (hk : e.kind = .unlink) (hp : counterpart? layout w.current e = some p) :
    Takes layout w e l ↔ w.isFile p = .ok true ∧ p.location w.current = l := by
  constructor
  · rintro (⟨-, hp', hthere, hl⟩ | ⟨hk', -⟩)
    · rw [hp] at hp'
      cases hp'
      exact ⟨hthere, hl⟩
    · rw [hk] at hk'
      cases hk'
  · rintro ⟨hthere, hl⟩
    exact .file hk hp hthere hl

theorem takes_unlinkDir (hk : e.kind = .unlinkDir)
    (hp : counterpart? layout w.current e = some p) :
    Takes layout w e l ↔ w.Stands p ∧ p.location w.current <+: l := by
  constructor
  · rintro (⟨hk', -⟩ | ⟨-, hp', hthere, hl⟩)
    · rw [hk] at hk'
      cases hk'
    · rw [hp] at hp'
      cases hp'
      exact ⟨hthere, hl⟩
  · rintro ⟨hthere, hl⟩
    exact .directory hk hp hthere hl

theorem respond_removal (steps : Steps) (r : Responder) (w : Workspace) (hk : e.Removes) :
    ∃ result w', r.respond steps e w = .ok (r, result) w' ∧
      Answered r.layout w e result w' := by
  cases hp : counterpart? r.layout w.current e with
  | none =>
    have hreact : react r.layout e w = .ok .ignore := by
      rcases hk with hk | hk
      · rw [react_unlink hk, hp]
      · rw [react_unlinkDir hk, hp]
    exact respond_unaddressed hreact hp
  | some p =>
    rcases hk with hk | hk
    · have htakes (l : Location) := takes_unlink (w := w) (l := l) hk hp
      have hanswered (b : Bool) (hb : w.isFile p = .ok b) : ¬ Refused r.layout w e := by
        obtain ⟨x, hx, -⟩ := Workspace.entry_of_isFile hb
        exact not_refused hp hx
      refine respond_asked (w.isFile p) (.removeFile p)
        (by rw [react_unlink hk, hp]) (fun f hf => refused_of_failed hp (.inl hf)) hanswered
        (fun hno l h => hno ((htakes l).mp h).1) fun hyes => ⟨by simp, ?_⟩
      obtain ⟨w', hperform, hc, hget⟩ := perform_removeFile_ok steps r hyes
      exact ⟨w', hperform, .taken hc hget
        (fun l => (htakes l).trans (and_iff_right hyes)) (hanswered _ hyes)⟩
    · have htakes (l : Location) := takes_unlinkDir (w := w) (l := l) hk hp
      have hanswered (b : Bool) (hb : w.isDirectory p = .ok b) : ¬ Refused r.layout w e := by
        obtain ⟨x, hx, -⟩ := Workspace.entry_of_isDirectory hb
        exact not_refused hp hx
      refine respond_asked (w.isDirectory p) (.removeDirectory p)
        (by rw [react_unlinkDir hk, hp]) (fun f hf => refused_of_failed hp (.inr hf)) hanswered
        (fun hno l h => hno ((htakes l).mp h).1) fun hyes => ⟨by simp, ?_⟩
      have hne : p.location w.current ≠ [] := by
        obtain ⟨n, rest, rfl⟩ := counterpart_along hp
        simp [Asset.location_along]
      obtain ⟨w', hperform, hc, hget⟩ := perform_removeDirectory_ok steps r hyes hne
      exact ⟨w', hperform, .taken hc hget
        (fun l => (htakes l).trans (and_iff_right hyes)) (hanswered _ hyes)⟩

/-! ### Several removals -/

structure Left (layout : Layout) (w : Workspace) (es : List Event) (v : Workspace) : Prop where
  current : v.current = w.current
  entry : ∀ l x, v.tree.get? l = some x ↔ w.tree.get? l = some x ∧ ∀ e ∈ es, ¬ Takes layout w e l

variable {es : List Event}

theorem Left.nil (layout : Layout) (w : Workspace) : Left layout w [] w :=
  ⟨rfl, fun _ _ => by simp⟩

theorem Left.spared (h : Left layout w es v) {x : Entry} (hl : ¬ layout.Beneath w.current l)
    (hget : w.tree.get? l = some x) : v.tree.get? l = some x :=
  (h.entry l x).mpr ⟨hget, fun _ _ htakes => hl htakes.beneath⟩

theorem Left.stands_root (h : Left layout w es v) (haside : layout.Aside w.current) :
    v.Stands layout.root ↔ w.Stands layout.root := by
  constructor
  · intro hs
    exact hs.kept h.current.symm fun l hl => ((h.entry l _).mp hl).1
  · intro hs
    have hway (way : List Segment) (hway : way <+: layout.root.segments)
        (hd : w.tree.get? (Path.settle (layout.root.start w.current) way) = some .directory) :=
      h.spared (haside way hway) hd
    exact .of_resolve (Workspace.resolve_of_way h.current hway hs.resolve)
      (hway _ (List.prefix_refl _) hs.directory)

/-- Where the root of the project stands in one of two workspaces if it does in the
other, and the same is at a counterpart, a file that is found there in one of them
is found in the other. -/
theorem isFile_shared (hc : v.current = w.current)
    (hroot : v.Stands layout.root → w.Stands layout.root)
    (hp : counterpart? layout w.current e = some p)
    (hget : w.tree.get? (p.location w.current) = v.tree.get? (p.location w.current))
    (h : v.isFile p = .ok true) : w.isFile p = .ok true := by
  obtain ⟨hresolve, bytes, hfile⟩ := Workspace.file_of_isFile h
  obtain ⟨n, rest, rfl⟩ := counterpart_along hp
  rw [Layout.output_along] at h hresolve hget hfile ⊢
  have hs : v.Stands layout.root :=
    Workspace.stands_of_child (by simp) hresolve (by rw [hfile]; simp)
  apply Workspace.isFile_along_of_file (hroot hs) hs hc _ h
  rw [Asset.location_along] at hget
  rw [Tree.file?, hget]
  rfl

theorem stands_shared (hc : v.current = w.current)
    (hroot : v.Stands layout.root → w.Stands layout.root)
    (hp : counterpart? layout w.current e = some p)
    (hget : w.tree.get? (p.location w.current) = some .directory)
    (h : v.Stands p) : w.Stands p := by
  obtain ⟨n, rest, rfl⟩ := counterpart_along hp
  have hresolve := h.resolve
  rw [Layout.output_along] at h hresolve hget ⊢
  have hs : v.Stands layout.root := h.outer
  rw [Asset.location_along] at hget
  refine .of_resolve (Workspace.resolve_along_of_get (hroot hs) hs hc (by simp [hget]) hresolve) ?_
  rw [hc, Asset.location_along, hget]

theorem Left.takes_iff (h : Left layout w es v) (haside : layout.Aside w.current)
    (hget : v.tree.get? l ≠ none) : Takes layout v e l ↔ Takes layout w e l := by
  obtain ⟨x, hv⟩ := Option.ne_none_iff_exists'.mp hget
  have hw := ((h.entry l x).mp hv).1
  have hroot := h.stands_root haside
  constructor
  · rintro (⟨hk, hp, hthere, hl⟩ | ⟨hk, hp, hthere, hl⟩)
    · rw [h.current] at hp hl
      refine .file hk hp (isFile_shared h.current hroot.mp hp ?_ hthere) hl
      rw [hl, hv, hw]
    · have hd := hthere.directory
      rw [h.current] at hp hl hd
      exact .directory hk hp (stands_shared h.current hroot.mp hp ((h.entry _ _).mp hd).1 hthere) hl
  · rintro (⟨hk, hp, hthere, hl⟩ | ⟨hk, hp, hthere, hl⟩)
    · rw [← h.current] at hp hl
      refine .file hk hp (isFile_shared h.current.symm hroot.mpr hp ?_ hthere) hl
      rw [hl, hv, hw]
    · have hd := hthere.directory
      rw [← h.current] at hp hl hd
      refine .directory hk hp (stands_shared h.current.symm hroot.mpr hp ?_ hthere) hl
      obtain ⟨more, rfl⟩ := hl
      -- something is left in the directory, or the directory itself is
      by_cases hmore : more = []
      · rw [hmore, List.append_nil] at hv hw
        rw [hv, ← hw, hd]
      · exact Tree.get_on_way hmore hget

theorem Left.answered {result : Except Failure (Option Run)} {v' : Workspace}
    (h : Left layout w es v) (haside : layout.Aside w.current)
    (ha : Answered layout v e result v') : Left layout w (es ++ [e]) v' := by
  refine ⟨ha.1.trans h.current, fun l x => ?_⟩
  rw [ha.2.1]
  constructor
  · rintro ⟨hget, hno⟩
    rw [h.takes_iff haside (by simp [hget])] at hno
    obtain ⟨hget, hes⟩ := (h.entry l x).mp hget
    refine ⟨hget, fun e' he' => ?_⟩
    rcases List.mem_append.mp he' with he' | he'
    · exact hes e' he'
    · rwa [List.mem_singleton.mp he']
  · rintro ⟨hget, hes⟩
    have hleft : v.tree.get? l = some x :=
      (h.entry l x).mpr ⟨hget, fun e' he' => hes e' (List.mem_append_left _ he')⟩
    refine ⟨hleft, ?_⟩
    rw [h.takes_iff haside (by simp [hleft])]
    exact hes e (by simp)

theorem Left.of_tree {v' : Workspace} (h : Left layout w es v) (ht : v'.tree = v.tree)
    (hc : v'.current = v.current) : Left layout w es v' :=
  ⟨hc.trans h.current, by rw [ht]; exact h.entry⟩

theorem deliver_left (steps : Steps) (r : Responder) {done : List Event} (es : List Event)
    (hes : ∀ e ∈ es, e.Removes) (haside : r.layout.Aside w.current)
    (h : Left r.layout w done v) :
    ∃ w', deliver (CommandLine.handing steps) r es v = .ok r w' ∧
      Left r.layout w (done ++ es) w' := by
  induction es generalizing done v with
  | nil => exact ⟨v, rfl, by rwa [List.append_nil]⟩
  | cons e es ih =>
    obtain ⟨he, hrest⟩ := List.forall_mem_cons.mp hes
    obtain ⟨result, v', hrespond, hanswered⟩ := respond_removal steps r v he
    have hleft := h.answered haside hanswered
    have hcall : CommandLine.handing steps r e v = .ok (r, result.map fun _ => ()) v' := by
      rw [CommandLine.handing, Action.bind_of_ok hrespond]
      rfl
    rw [← List.singleton_append, ← List.append_assoc, List.singleton_append, deliver,
      Action.bind_of_ok hcall]
    cases result with
    | ok run => exact ih hrest hleft
    | error f =>
      have hnoted : Left r.layout w (done ++ [e])
          (noting v' [⟨.error, failureMessage e, some f⟩]) := hleft.of_tree rfl rfl
      exact ih hrest hnoted

theorem counterpart_declaration (hk : e.kind = .unlink) {n : Name}
    (hn : ((eventPath layout e.path).location current).getLast? = some n)
    (hdeclaration : Text.endsWith Emission.declarationExtension (Text.lower n.text) = true) :
    counterpart? layout current e = none := by
  rw [counterpart?, Option.bind_eq_none_iff]
  intro own hown
  obtain ⟨hne, hlocation⟩ := wayOf_ok (eventWay_eq hown).1
  rw [hlocation, List.getLast?_append_of_ne_nil _ hne] at hn
  rw [hk]
  dsimp only
  rw [removedWay?, hn, Option.bind_some, removedName?, if_pos hdeclaration]
  rfl

end

/-- A removal fails only if the path of its counterpart is too long for the file
system, or a name in it is, and then it changes nothing; and the removal of a
declaration changes nothing. From a root whose way stays clear of its output, removals
that are handed over in whatever order, each of them as often as one likes, leave one
and the same tree: what none of them takes of the first one. -/
theorem removals_confluent (steps : Steps) (r : Responder) (w : Workspace) :
    (∀ (e : Event) (v : Workspace), e.Removes →
      ∃ result v', r.respond steps e v = .ok (r, result) v' ∧
        (result = .ok none ∧ ¬ Refused r.layout v e ∨
          result = .error (.fault .nameTooLong) ∧ v' = v ∧ Refused r.layout v e)) ∧
    (∀ (e : Event) (v : Workspace) (p : Path),
      counterpart? r.layout v.current e = some p → p.Fits → ¬ Refused r.layout v e) ∧
    (∀ (e : Event) (v : Workspace) (n : Name), e.kind = .unlink →
      ((eventPath r.layout e.path).location v.current).getLast? = some n →
      Text.endsWith Emission.declarationExtension (Text.lower n.text) = true →
      r.respond steps e v = .ok (r, .ok none) v) ∧
    (r.layout.Aside w.current → ∀ es : List Event, (∀ e ∈ es, e.Removes) → ∃ t : Tree,
      (∀ l x, t.get? l = some x ↔
        w.tree.get? l = some x ∧ ∀ e ∈ es, ¬ Takes r.layout w e l) ∧
      ∀ es', (∀ e, e ∈ es' ↔ e ∈ es) →
        ∃ w', deliver (CommandLine.handing steps) r es' w = .ok r w' ∧ w'.tree = t) := by
  refine ⟨fun e v hk => ?_, fun e v p hp hfits => ?_, fun e v n hk hn hdeclaration => ?_,
    fun haside es hes => ?_⟩
  · obtain ⟨result, v', hrespond, -, -, houtcome⟩ := respond_removal steps r v hk
    exact ⟨result, v', hrespond, houtcome⟩
  · obtain ⟨x, hx⟩ := Workspace.entry_of_fits (w := v) hfits
    exact not_refused hp hx
  · apply respond_ignored
    rw [react_unlink hk, counterpart_declaration hk hn hdeclaration]
  · obtain ⟨w', -, hleft⟩ := deliver_left steps r es hes haside (.nil r.layout w)
    refine ⟨w'.tree, hleft.entry, fun es' hsame => ?_⟩
    obtain ⟨w'', hdeliver, hleft'⟩ := deliver_left steps r es'
      (fun e he => hes e ((hsame e).mp he)) haside (.nil r.layout w)
    refine ⟨w'', hdeliver, Tree.ext_get? fun l => Option.ext fun x => ?_⟩
    have h := hleft.entry l x
    have h' := hleft'.entry l x
    rw [List.nil_append] at h h'
    rw [h, h']
    simp only [hsame]

/-! The sample project with two more directories in its output, and its root spelled
through one of them. -/

def sampleTypes : Location :=
  [Layout.mediaName, Layout.luaName, Scope.client.name, ⟨"types.d.ts".toList, by decide⟩]

def sampleServer : Location := [Layout.mediaName, Layout.luaName, Scope.server.name]

def sampleCrowded : Workspace where
  tree := (Except.toOption do
    let t ← sampleCopied.tree.makeDirectory sampleTypes
    t.makeDirectory sampleServer).getD .empty

def sampleDetour : Responder := ⟨⟨Path.parse "media/lua/client/../../..".toList⟩, {}, []⟩

def sampleRemovals : List Event :=
  [⟨.unlinkDir, "src/client".toList⟩, ⟨.unlinkDir, "src/server".toList⟩]

theorem sample_removals_commute : sampleLayout.Aside sampleCrowded.current ∧ ∃ w w',
    deliver (CommandLine.handing sampleSteps) sampleResponder sampleRemovals sampleCrowded =
      .ok sampleResponder w ∧
    deliver (CommandLine.handing sampleSteps) sampleResponder
      (sampleRemovals.reverse ++ sampleRemovals) sampleCrowded = .ok sampleResponder w' ∧
    w.tree = w'.tree := by
  have haside : sampleLayout.Aside sampleCrowded.current := Layout.aside_of_names (by decide) _
  obtain ⟨-, -, -, hleft⟩ := removals_confluent sampleSteps sampleResponder sampleCrowded
  have hremoves : ∀ e ∈ sampleRemovals, e.Removes := by
    intro e he
    rcases List.mem_pair.mp he with rfl | rfl
    · exact .inr rfl
    · exact .inr rfl
  obtain ⟨t, -, hsame⟩ := hleft haside sampleRemovals hremoves
  obtain ⟨w, hw, rfl⟩ := hsame sampleRemovals fun _ => Iff.rfl
  obtain ⟨w', hw', heq⟩ := hsame (sampleRemovals.reverse ++ sampleRemovals) fun e => by simp
  exact ⟨haside, w, w', hw, hw', heq.symm⟩

/-- The file of a module can have a longer name than its source, a directory can be
named like a declaration, and a directory that is gone can be in the way. -/
theorem sample_removals_differ :
    (∃ w', sampleResponder.respond sampleSteps
        ⟨.unlink, "src/client/".toList ++ List.replicate 252 'a' ++ ".ts".toList⟩ sampleCrowded =
      .ok (sampleResponder, .error (.fault .nameTooLong)) w') ∧
    (sampleCrowded.tree.get? sampleTypes = some .directory ∧
      ((sampleResponder.respond sampleSteps
        ⟨.unlinkDir, "src/client/types.d.ts".toList⟩).final sampleCrowded).tree.get? sampleTypes =
          none) ∧
    ((deliver (CommandLine.handing sampleSteps) sampleDetour sampleRemovals).final
      sampleCrowded).tree.get? sampleServer = some .directory ∧
    ((deliver (CommandLine.handing sampleSteps) sampleDetour sampleRemovals.reverse).final
      sampleCrowded).tree.get? sampleServer = none := by
  refine ⟨⟨sampleCrowded, respond_failed ?_⟩, ⟨?_, ?_⟩, ?_, ?_⟩
  · decide +kernel
  · decide +kernel
  · decide +kernel
  · decide +kernel
  · decide +kernel

end Watch

end ModBuild
