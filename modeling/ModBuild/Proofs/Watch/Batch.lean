import ModBuild.Proofs.Watch.Convergence
import ModBuild.Proofs.Workspace.Fitting
import ModBuild.Proofs.Workspace.Within

/-!
# A batch is a set

Changes are reported in no order, so what is made of a batch must not depend on
one. Each change is told apart on its own, by what was known before the batch;
the events are then put into an order that is total on what they say, and a path
is always shallower than what lies in it.
-/

set_option autoImplicit false

namespace ModBuild

theorem mapM_refused {α β ε : Type} {f : α → Except ε β} {e : ε} {xs : List α}
    (hf : ∀ x ∈ xs, ∀ e', f x = .error e' → e' = e) (h : ∃ x ∈ xs, f x = .error e) :
    xs.mapM f = .error e := by
  cases hs : xs.mapM f with
  | error e' =>
    obtain ⟨x, hx, he⟩ := mapM_failed hs
    rw [hf x hx e' he]
  | ok ys =>
    obtain ⟨x, hx, he⟩ := h
    obtain ⟨y, -, hy⟩ := (mapM_answers hs).1 x hx
    rw [he] at hy
    cases hy

theorem mergeSort_perm_eq {α : Type} {le : α → α → Bool} {xs ys : List α}
    (htrans : ∀ a b c, le a b = true → le b c = true → le a c = true)
    (htotal : ∀ a b, le a b = true ∨ le b a = true)
    (hantisymm : ∀ a b, le a b = true → le b a = true → a = b) (h : xs.Perm ys) :
    xs.mergeSort le = ys.mergeSort le := by
  have htotal' (a b : α) : (le a b || le b a) = true := Bool.or_eq_true_iff.mpr (htotal a b)
  have hperm := (xs.mergeSort_perm le).trans (h.trans (ys.mergeSort_perm le).symm)
  exact hperm.eq_of_pairwise (fun a b _ _ => hantisymm a b)
    (List.pairwise_mergeSort htrans htotal' xs) (List.pairwise_mergeSort htrans htotal' ys)

namespace Path

/-- A path leads to a directory that another one leads into: it is the beginning
of the other as they are written, or it takes no step up and leads to a place on
the way. -/
def Encloses (p q : Path) : Prop :=
  (q.isWithin p = true ∧ p ≠ q) ∨
    (.up ∉ p.segments ∧ p.location [] <+: q.location [] ∧ p.location [] ≠ q.location [])

theorem length_settle_le (l : Location) (ss : List Segment) :
    (settle l ss).length ≤ l.length + ss.length := by
  induction ss generalizing l with
  | nil => simp [settle]
  | cons s ss ih =>
    cases s with
    | up =>
      have := ih l.dropLast
      simp only [settle, List.length_dropLast, List.length_cons] at this ⊢
      omega
    | name n =>
      have := ih (l ++ [n])
      simp only [settle, List.length_append, List.length_cons, List.length_nil] at this ⊢
      omega

theorem length_settle {l : Location} {ss : List Segment} (h : .up ∉ ss) :
    (settle l ss).length = l.length + ss.length := by
  induction ss generalizing l with
  | nil => simp [settle]
  | cons s ss ih =>
    cases s with
    | up => simp at h
    | name n =>
      rw [settle, ih (by simpa using h)]
      simp
      omega

theorem Encloses.depth_lt {p q : Path} (h : p.Encloses q) (hp : p.isAbsolute = true)
    (hq : q.isAbsolute = true) : p.depth < q.depth := by
  rw [depth, depth, if_pos hp, if_pos hq, Nat.add_lt_add_iff_right]
  rcases h with ⟨hwithin, hne⟩ | ⟨hup, hl, hne⟩
  · obtain ⟨hanchor, hp⟩ := isWithin_iff.mp hwithin
    apply Nat.lt_of_le_of_ne hp.length_le
    intro hlength
    obtain ⟨a, ss⟩ := p
    obtain ⟨b, ts⟩ := q
    obtain rfl : a = b := hanchor.symm
    exact hne (congrArg (Path.mk a) (hp.eq_of_length hlength))
  · have hlt := Nat.lt_of_le_of_ne hl.length_le fun e => hne (hl.eq_of_length e)
    rw [location, location, if_pos hp, if_pos hq, length_settle hup] at hlt
    have hle := length_settle_le [] q.segments
    simp only [List.length_nil, Nat.zero_add] at hlt hle
    omega

end Path

namespace Watch

theorem EventKind.text_injective {a b : EventKind} (h : a.text = b.text) : a = b := by
  have ha := ofText?_text a
  rw [h, ofText?_text] at ha
  exact (Option.some.inj ha).symm

def EventKind.phase : EventKind → Nat
  | .addDir => 0
  | .add => 1
  | .change => 1
  | .unlink => 2
  | .unlinkDir => 3

def Change.sighting (known : List Text) (s : Workspace) (c : Change) : Sighting :=
  let p := c.absolute s.current
  match c.kind with
  | .added => if s.Stands p then .newDirectory p.print else .write p.print .add
  | .modified => if s.Stands p then .nothing else .write p.print .change
  | .deleted => if known.contains p.print then .removedDirectory p.print else .removedFile p.print

/-- The event that a change becomes: one for every change, except that a
directory that was modified is none. -/
def Change.event? (known : List Text) (s : Workspace) (c : Change) : Option Event :=
  let p := c.absolute s.current
  match c.kind with
  | .added => some ⟨if s.Stands p then .addDir else .add, p.print⟩
  | .modified => if s.Stands p then none else some ⟨.change, p.print⟩
  | .deleted => some ⟨if known.contains p.print then .unlinkDir else .unlink, p.print⟩

/-- Nothing is asked of a deletion, and of another change whether a directory is
at its path. -/
def Change.Answered (s : Workspace) (c : Change) : Prop :=
  c.kind ≠ .deleted → ∃ b, s.isDirectory (c.absolute s.current) = .ok b

def Sighting.event? : Sighting → Option Event
  | .newDirectory p => some ⟨.addDir, p⟩
  | .write p k => some ⟨k, p⟩
  | .removedFile p => some ⟨.unlink, p⟩
  | .removedDirectory p => some ⟨.unlinkDir, p⟩
  | .nothing => none

section

variable {known : List Text} {s : Workspace} {c : Change}

theorem Change.event_of_sighting (known : List Text) (s : Workspace) (c : Change) :
    (c.sighting known s).event? = c.event? known s := by
  unfold sighting event?
  cases c.kind with
  | added => dsimp only; split <;> rfl
  | modified => dsimp only; split <;> rfl
  | deleted => dsimp only; split <;> rfl

theorem Change.event_none (known : List Text) (s : Workspace) (c : Change) :
    c.event? known s = none ↔ c.kind = .modified ∧ s.Stands (c.absolute s.current) := by
  unfold event?
  cases c.kind with
  | added => simp
  | modified => by_cases h : s.Stands (c.absolute s.current) <;> simp [h]
  | deleted => simp

theorem Change.event_path {e : Event} (h : c.event? known s = some e) :
    (Path.parse e.path).isAbsolute = true := by
  have hpath : e.path = (c.absolute s.current).print := by
    unfold event? at h
    cases hk : c.kind with
    | added => rw [hk] at h; cases h; rfl
    | modified =>
      rw [hk] at h
      dsimp only at h
      split at h
      · cases h
      · cases h; rfl
    | deleted => rw [hk] at h; cases h; rfl
  rw [hpath, Path.parse_print]
  exact Path.absolute_isAbsolute _ _

namespace Watcher

theorem sight_answered (h : c.Answered s) : sight known s c = .ok (c.sighting known s) := by
  unfold sight Change.sighting
  have hpath : (Path.parse c.path).absolute s.current = c.absolute s.current := rfl
  simp only [hpath]
  cases hk : c.kind with
  | deleted => rfl
  | added =>
    obtain ⟨b, hb⟩ := h (by simp [hk])
    simp only [Workspace.Stands, hb]
    cases b <;> rfl
  | modified =>
    obtain ⟨b, hb⟩ := h (by simp [hk])
    simp only [Workspace.Stands, hb]
    cases b <;> rfl

theorem sight_unanswered (h : ¬ c.Answered s) :
    sight known s c = .error (.fault .nameTooLong) := by
  unfold sight
  have hpath : (Path.parse c.path).absolute s.current = c.absolute s.current := rfl
  simp only [hpath]
  rw [Change.Answered, Classical.not_imp, not_exists] at h
  obtain ⟨hk, hno⟩ := h
  have hrefused : s.isDirectory (c.absolute s.current) = .error (.fault .nameTooLong) := by
    cases hd : s.isDirectory (c.absolute s.current) with
    | ok b => exact absurd hd (hno b)
    | error f => rw [Workspace.isDirectory_refused hd]
  cases hc : c.kind with
  | deleted => exact absurd hc hk
  | added => simp only [hrefused]; rfl
  | modified => simp only [hrefused]; rfl

theorem sight_refused {f : Failure} (h : sight known s c = .error f) :
    f = .fault .nameTooLong := by
  by_cases hc : c.Answered s
  · rw [sight_answered hc] at h
    cases h
  · rw [sight_unanswered hc] at h
    exact (Except.error.inj h).symm

/-! ### The order of the events -/

theorem keyLe_iff {a b : Int × Text} :
    keyLe a b = true ↔ a.1 < b.1 ∨ a.1 = b.1 ∧ Text.le a.2 b.2 = true := by
  simp [keyLe]

theorem keyLe_trans {a b c : Int × Text} (h₁ : keyLe a b = true) (h₂ : keyLe b c = true) :
    keyLe a c = true := by
  rw [keyLe_iff] at h₁ h₂ ⊢
  rcases h₁ with h₁ | ⟨h₁, ht₁⟩ <;> rcases h₂ with h₂ | ⟨h₂, ht₂⟩
  · exact .inl (by omega)
  · exact .inl (by omega)
  · exact .inl (by omega)
  · exact .inr ⟨h₁.trans h₂, Text.le_trans ht₁ ht₂⟩

theorem keyLe_total (a b : Int × Text) : keyLe a b = true ∨ keyLe b a = true := by
  rw [keyLe_iff, keyLe_iff]
  rcases lt_trichotomy a.1 b.1 with h | h | h
  · exact .inl (.inl h)
  · exact (Text.le_total a.2 b.2).imp (fun ht => .inr ⟨h, ht⟩) fun ht => .inr ⟨h.symm, ht⟩
  · exact .inr (.inl h)

theorem keyLe_antisymm {a b : Int × Text} (h₁ : keyLe a b = true) (h₂ : keyLe b a = true) :
    a.2 = b.2 := by
  rw [keyLe_iff] at h₁ h₂
  rcases h₁ with h₁ | ⟨h₁, ht₁⟩ <;> rcases h₂ with h₂ | ⟨h₂, ht₂⟩
  · omega
  · omega
  · omega
  · exact Text.le_antisymm ht₁ ht₂

def writeLe (a b : Text × EventKind) : Bool :=
  if a.1 = b.1 then Text.le a.2.text b.2.text else Text.le a.1 b.1

theorem writeLe_total (a b : Text × EventKind) : writeLe a b = true ∨ writeLe b a = true := by
  rw [writeLe, writeLe]
  by_cases h : a.1 = b.1
  · rw [if_pos h, if_pos h.symm]
    exact Text.le_total _ _
  · rw [if_neg h, if_neg (Ne.symm h)]
    exact Text.le_total _ _

theorem writeLe_antisymm {a b : Text × EventKind} (h₁ : writeLe a b = true)
    (h₂ : writeLe b a = true) : a = b := by
  rw [writeLe] at h₁ h₂
  by_cases h : a.1 = b.1
  · rw [if_pos h] at h₁
    rw [if_pos h.symm] at h₂
    exact Prod.ext h (EventKind.text_injective (Text.le_antisymm h₁ h₂))
  · rw [if_neg h] at h₁
    rw [if_neg (Ne.symm h)] at h₂
    exact absurd (Text.le_antisymm h₁ h₂) h

theorem writeLe_trans {a b c : Text × EventKind} (h₁ : writeLe a b = true)
    (h₂ : writeLe b c = true) : writeLe a c = true := by
  rw [writeLe] at h₁ h₂ ⊢
  by_cases hab : a.1 = b.1
  · by_cases hbc : b.1 = c.1
    · rw [if_pos hab] at h₁
      rw [if_pos hbc] at h₂
      rw [if_pos (hab.trans hbc)]
      exact Text.le_trans h₁ h₂
    · rw [if_neg hbc] at h₂
      rwa [hab, if_neg hbc]
  · rw [if_neg hab] at h₁
    by_cases hbc : b.1 = c.1
    · rwa [← hbc, if_neg hab]
    · rw [if_neg hbc] at h₂
      have hac : a.1 ≠ c.1 := fun hac => hab (Text.le_antisymm h₁ (hac ▸ h₂))
      rw [if_neg hac]
      exact Text.le_trans h₁ h₂

theorem arrange_perm (sightings : List Sighting) :
    (arrange sightings).Perm (sightings.filterMap Sighting.event?) := by
  have hparts : (arrange sightings).Perm
      ((sightings.filterMap Sighting.newDirectory?).map (⟨.addDir, ·⟩) ++
        (sightings.filterMap Sighting.write?).map (fun x => ⟨x.2, x.1⟩) ++
        (sightings.filterMap Sighting.removedFile?).map (⟨.unlink, ·⟩) ++
        (sightings.filterMap Sighting.removedDirectory?).map (⟨.unlinkDir, ·⟩)) := by
    refine List.Perm.append (List.Perm.append (List.Perm.append ?_ ?_) ?_) ?_
    · exact (List.mergeSort_perm _ _).map _
    · exact (List.mergeSort_perm _ _).map _
    · exact (List.mergeSort_perm _ _).map _
    · exact (List.mergeSort_perm _ _).map _
  refine hparts.trans ?_
  -- each sighting goes to the head of one of the four parts
  clear hparts
  induction sightings with
  | nil => rfl
  | cons x rest ih =>
    cases x with
    | newDirectory p => exact ih.cons _
    | write p k =>
      refine List.Perm.trans ?_ (ih.cons ⟨k, p⟩)
      exact (List.perm_middle.append_right _).append_right _
    | removedFile p =>
      refine List.Perm.trans ?_ (ih.cons ⟨.unlink, p⟩)
      exact List.perm_middle.append_right _
    | removedDirectory p =>
      refine List.Perm.trans ?_ (ih.cons ⟨.unlinkDir, p⟩)
      exact List.perm_middle
    | nothing => exact ih

theorem arrange_eq {sightings sightings' : List Sighting} (h : sightings.Perm sightings') :
    arrange sightings = arrange sightings' := by
  have hkey {f : Text → Int} {xs ys : List Text} (hp : xs.Perm ys) :
      xs.mergeSort (fun a b => keyLe (f a, a) (f b, b)) =
        ys.mergeSort fun a b => keyLe (f a, a) (f b, b) :=
    mergeSort_perm_eq (fun _ _ _ => keyLe_trans) (fun _ _ => keyLe_total _ _)
      (fun _ _ => keyLe_antisymm) hp
  have hwrites : (sightings.filterMap Sighting.write?).mergeSort writeLe =
      (sightings'.filterMap Sighting.write?).mergeSort writeLe :=
    mergeSort_perm_eq (fun _ _ _ => writeLe_trans) writeLe_total (fun _ _ => writeLe_antisymm)
      (h.filterMap _)
  have hremoved : Text.sorted (sightings.filterMap Sighting.removedFile?) =
      Text.sorted (sightings'.filterMap Sighting.removedFile?) :=
    mergeSort_perm_eq (fun _ _ _ => Text.le_trans) Text.le_total (fun _ _ => Text.le_antisymm)
      (h.filterMap _)
  have hnew := hkey (f := depth) (h.filterMap Sighting.newDirectory?)
  have hgone := hkey (f := fun p => -depth p) (h.filterMap Sighting.removedDirectory?)
  change (_ ++ ((sightings.filterMap Sighting.write?).mergeSort writeLe).map _ ++ _ ++ _ :
    List Event) = _
  rw [hnew, hwrites, hremoved, hgone]
  rfl

structure Ordered (a b : Event) : Prop where
  phase : a.kind.phase ≤ b.kind.phase
  outsideIn : a.kind = .addDir → b.kind = .addDir → depth a.path ≤ depth b.path
  insideOut : a.kind = .unlinkDir → b.kind = .unlinkDir → depth b.path ≤ depth a.path

theorem keyed_pairwise (f : Text → Int) (texts : List Text) :
    (texts.mergeSort fun a b => keyLe (f a, a) (f b, b)).Pairwise fun a b => f a ≤ f b := by
  have htotal (a b : Text) : (keyLe (f a, a) (f b, b) || keyLe (f b, b) (f a, a)) = true :=
    Bool.or_eq_true_iff.mpr (keyLe_total _ _)
  have hsorted := @List.pairwise_mergeSort _ (fun a b => keyLe (f a, a) (f b, b))
    (fun _ _ _ => keyLe_trans) htotal texts
  apply hsorted.imp
  intro a b hab
  rcases keyLe_iff.mp hab with h | ⟨h, -⟩
  · exact le_of_lt h
  · exact le_of_eq h

theorem ordered_append {as bs : List Event} {n : Nat} (ha : as.Pairwise Ordered)
    (hb : bs.Pairwise Ordered) (han : ∀ e ∈ as, e.kind.phase ≤ n)
    (hbn : ∀ e ∈ bs, e.kind.phase = n + 1) :
    (as ++ bs).Pairwise Ordered ∧ ∀ e ∈ as ++ bs, e.kind.phase ≤ n + 1 := by
  constructor
  · refine List.pairwise_append.mpr ⟨ha, hb, fun a hma b hmb => ?_⟩
    have hlt : a.kind.phase < b.kind.phase := by
      have := han a hma
      have := hbn b hmb
      omega
    refine ⟨hlt.le, fun h h' => ?_, fun h h' => ?_⟩
    · rw [h, h'] at hlt
      exact absurd hlt (Nat.lt_irrefl _)
    · rw [h, h'] at hlt
      exact absurd hlt (Nat.lt_irrefl _)
  · intro e he
    rcases List.mem_append.mp he with he | he
    · exact (han e he).trans (Nat.le_succ n)
    · exact (hbn e he).le

theorem ordered_plain {es : List Event} {n : Nat} (hn : n = 1 ∨ n = 2)
    (h : ∀ e ∈ es, e.kind.phase = n) : es.Pairwise Ordered := by
  refine List.pairwise_of_forall_mem_list fun a ha b hb => ?_
  refine ⟨le_of_eq ((h a ha).trans (h b hb).symm), fun hk => ?_, fun hk => ?_⟩
  · have := h a ha
    rw [hk, EventKind.phase] at this
    omega
  · have := h a ha
    rw [hk, EventKind.phase] at this
    omega

theorem phase_map (k : EventKind) (texts : List Text) :
    ∀ e ∈ texts.map (⟨k, ·⟩ : Text → Event), e.kind.phase = k.phase := by
  intro e he
  obtain ⟨p, -, rfl⟩ := List.mem_map.mp he
  rfl

theorem arrange_ordered {sightings : List Sighting}
    (hwrites : ∀ p k, .write p k ∈ sightings → k = .add ∨ k = .change) :
    (arrange sightings).Pairwise Ordered := by
  have hwrite := mem_sighted (f := Sighting.write?) (g := fun x => .write x.1 x.2)
    (fun s x => by cases s <;> simp [Sighting.write?, Prod.ext_iff]) sightings
  have hwritten : ∀ e ∈ ((sightings.filterMap Sighting.write?).mergeSort writeLe).map
      (fun x => (⟨x.2, x.1⟩ : Event)), e.kind.phase = 1 := by
    intro e he
    obtain ⟨x, hx, rfl⟩ := List.mem_map.mp he
    rw [List.mem_mergeSort, hwrite] at hx
    rcases hwrites x.1 x.2 hx with h | h
    · rw [h]; rfl
    · rw [h]; rfl
  have houtsideIn := keyed_pairwise depth (sightings.filterMap Sighting.newDirectory?)
  have hinsideOut := keyed_pairwise (fun p => -depth p)
    (sightings.filterMap Sighting.removedDirectory?)
  -- the four parts, each put behind those of the phases before it
  have hnew : ((sightings.filterMap Sighting.newDirectory?).mergeSort fun a b =>
      keyLe (depth a, a) (depth b, b)).map (⟨.addDir, ·⟩ : Text → Event) |>.Pairwise Ordered :=
    List.pairwise_map.mpr
      (houtsideIn.imp fun h => ⟨le_refl _, fun _ _ => h, fun hk => (by cases hk)⟩)
  obtain ⟨h₁, hp₁⟩ := ordered_append hnew (ordered_plain (.inl rfl) hwritten)
    (fun e he => (phase_map .addDir _ e he).le) hwritten
  have hfile := phase_map .unlink (Text.sorted (sightings.filterMap Sighting.removedFile?))
  obtain ⟨h₂, hp₂⟩ := ordered_append h₁ (ordered_plain (.inr rfl) hfile) hp₁ hfile
  refine (ordered_append h₂ ?_ hp₂ (phase_map .unlinkDir _)).1
  exact List.pairwise_map.mpr (hinsideOut.imp fun h =>
    ⟨le_refl _, fun hk => (by cases hk), fun _ _ => Int.neg_le_neg_iff.mp h⟩)

/-- Directories known after a batch: those that were known or are new, but for what
lies in a removed one. -/
theorem mem_knownAfter {known : List Text} {sightings : List Sighting} {d : Text} :
    d ∈ knownAfter known sightings ↔ (d ∈ known ∨ .newDirectory d ∈ sightings) ∧
      ∀ r, .removedDirectory r ∈ sightings →
        (Path.parse d).isWithin (Path.parse r) = false := by
  have hnew := mem_sighted (f := Sighting.newDirectory?) (g := .newDirectory)
    (fun s p => by cases s <;> simp [Sighting.newDirectory?]) sightings
  have hdirectory := mem_sighted (f := Sighting.removedDirectory?) (g := .removedDirectory)
    (fun s p => by cases s <;> simp [Sighting.removedDirectory?]) sightings
  have hgrown (texts known : List Text) : d ∈ texts.foldl
      (fun known p => if known.contains p then known else known ++ [p]) known ↔
        d ∈ known ∨ d ∈ texts := by
    induction texts generalizing known with
    | nil => simp
    | cons p texts ih =>
      rw [List.foldl_cons, ih, List.mem_cons]
      split
      · next h =>
        rw [List.contains_iff_mem] at h
        constructor
        · exact fun h => h.imp_right .inr
        · rintro (h' | rfl | h')
          · exact .inl h'
          · exact .inl h
          · exact .inr h'
      · rw [List.mem_append, List.mem_singleton, or_assoc]
  rw [knownAfter, List.mem_filter, hgrown, hnew]
  apply and_congr_right
  intro _
  rw [Bool.not_eq_true', List.any_eq_false]
  simp only [List.mem_map, hdirectory, forall_exists_index, and_imp, forall_apply_eq_imp_iff₂,
    Bool.not_eq_true]

end Watcher

end

/-- Two observations come to the same: to the same events and to watchers that
know the same directories, or to the same failure. -/
def Alike : (a b : EStateM.Result Failure Workspace (List Event × Watcher)) → Prop
  | .ok (events, x) s, .ok (events', y) s' => events = events' ∧ s = s' ∧
      x.directory = y.directory ∧ x.running = y.running ∧ ∀ d, d ∈ x.known ↔ d ∈ y.known
  | .error f s, .error f' s' => f = f' ∧ s = s'
  | _, _ => False

section

variable {watcher : Watcher} {changes changes' : List Change} {s : Workspace}

theorem observe_answered (h : ∀ c ∈ changes, c.Answered s) :
    watcher.observe changes s =
      .ok (Watcher.arrange (changes.map (Change.sighting watcher.known s)),
        { watcher with
          known := Watcher.knownAfter watcher.known
            (changes.map (Change.sighting watcher.known s)) }) s := by
  have hsight : changes.mapM (Watcher.sight watcher.known s) =
      .ok (changes.map (Change.sighting watcher.known s)) :=
    mapM_eq_pure fun c hc => Watcher.sight_answered (h c hc)
  unfold Watcher.observe
  rw [Action.bind_of_ok (Action.ask_eq_ok.mpr ⟨hsight, rfl⟩)]
  rfl

theorem observe_refused (h : ∃ c ∈ changes, ¬ c.Answered s) :
    watcher.observe changes s = .error (.fault .nameTooLong) s := by
  obtain ⟨c, hc, hno⟩ := h
  have hsight : changes.mapM (Watcher.sight watcher.known s) = .error (.fault .nameTooLong) :=
    mapM_refused (fun _ _ _ => Watcher.sight_refused) ⟨c, hc, Watcher.sight_unanswered hno⟩
  have hask : Action.ask (fun s => changes.mapM (Watcher.sight watcher.known s)) s =
      .error (.fault .nameTooLong) s := by
    rw [Action.ask, hsight]
  exact Action.bind_of_error hask

theorem answered_of_observe {r : List Event × Watcher} {s' : Workspace}
    (h : watcher.observe changes s = .ok r s') : ∀ c ∈ changes, c.Answered s := by
  by_contra hno
  push Not at hno
  rw [observe_refused hno] at h
  cases h

theorem observe_alike (h : changes.Perm changes') :
    Alike (watcher.observe changes s) (watcher.observe changes' s) := by
  by_cases hall : ∀ c ∈ changes, c.Answered s
  · have hsightings := h.map (Change.sighting watcher.known s)
    rw [observe_answered hall, observe_answered fun c hc => hall c (h.mem_iff.mpr hc)]
    refine ⟨Watcher.arrange_eq hsightings, rfl, rfl, rfl, fun d => ?_⟩
    simp only [Watcher.mem_knownAfter, hsightings.mem_iff]
  · push Not at hall
    rw [observe_refused hall, observe_refused (by simpa only [← h.mem_iff] using hall)]
    exact ⟨rfl, rfl⟩

theorem observe_events {events : List Event} {after : Watcher} {s' : Workspace}
    (h : watcher.observe changes s = .ok (events, after) s') :
    s' = s ∧ events.Perm (changes.filterMap (Change.event? watcher.known s)) ∧
      events.Pairwise Watcher.Ordered := by
  rw [observe_answered (answered_of_observe h)] at h
  cases h
  refine ⟨rfl, (Watcher.arrange_perm _).trans ?_, Watcher.arrange_ordered ?_⟩
  · rw [List.filterMap_map]
    apply List.Perm.of_eq
    exact List.filterMap_congr fun c _ => Change.event_of_sighting watcher.known s c
  · intro p k hp
    obtain ⟨c, -, hc⟩ := List.mem_map.mp hp
    unfold Change.sighting at hc
    cases hk : c.kind with
    | added => rw [hk] at hc; dsimp only at hc; split at hc <;> cases hc; exact .inl rfl
    | modified => rw [hk] at hc; dsimp only at hc; split at hc <;> cases hc; exact .inr rfl
    | deleted => rw [hk] at hc; dsimp only at hc; split at hc <;> cases hc

end

/-- A batch is told apart as a set is: the order of its changes shows in nothing,
and it fails only for a path that the file system refuses. Every change becomes
one event, but for a directory that was modified, which becomes none. The events
come in the order of their phases; no directory is new before one that it lies in
and none is removed after one that it lies in. -/
theorem observe_batch (watcher : Watcher) (changes : List Change) (s : Workspace) :
    (∀ changes', changes.Perm changes' →
        Alike (watcher.observe changes s) (watcher.observe changes' s)) ∧
      ((∀ c ∈ changes, c.kind ≠ .deleted → (c.absolute s.current).Fits) →
        ∃ events after, watcher.observe changes s = .ok (events, after) s) ∧
      (∀ c ∈ changes, c.event? watcher.known s = none ↔
        c.kind = .modified ∧ s.Stands (c.absolute s.current)) ∧
      ∀ events after s', watcher.observe changes s = .ok (events, after) s' →
        s' = s ∧ events.Perm (changes.filterMap (Change.event? watcher.known s)) ∧
          (events.Pairwise fun a b => a.kind.phase ≤ b.kind.phase) ∧
          events.Pairwise fun a b =>
            (a.kind = .addDir → b.kind = .addDir →
              ¬ (Path.parse b.path).Encloses (Path.parse a.path)) ∧
            (a.kind = .unlinkDir → b.kind = .unlinkDir →
              ¬ (Path.parse a.path).Encloses (Path.parse b.path)) := by
  refine ⟨fun _ => observe_alike, fun hfits => ?_,
    fun c _ => Change.event_none watcher.known s c, fun events after s' h => ?_⟩
  · exact ⟨_, _, observe_answered fun c hc hk => Workspace.isDirectory_of_fits (hfits c hc hk)⟩
  obtain ⟨hs, hperm, hordered⟩ := observe_events h
  have habsolute : ∀ e ∈ events, (Path.parse e.path).isAbsolute = true := by
    intro e he
    obtain ⟨c, -, hc⟩ := List.mem_filterMap.mp (hperm.mem_iff.mp he)
    exact Change.event_path hc
  refine ⟨hs, hperm, hordered.imp fun h => h.phase, ?_⟩
  apply hordered.imp_of_mem
  intro a b ha hb hab
  constructor
  · intro hka hkb henc
    have hlt := henc.depth_lt (habsolute b hb) (habsolute a ha)
    have hle := hab.outsideIn hka hkb
    rw [Watcher.depth, Watcher.depth] at hle
    omega
  · intro hka hkb henc
    have hlt := henc.depth_lt (habsolute a ha) (habsolute b hb)
    have hle := hab.insideOut hka hkb
    rw [Watcher.depth, Watcher.depth] at hle
    omega

/-- A batch that names the directories of the sample project from the inside out,
and tells that one of them was modified. -/
def sampleBatch : List Change :=
  [⟨.added, "src/client".toList⟩, ⟨.deleted, "src/old.lua".toList⟩, sampleChange .modified,
    ⟨.modified, "src/client".toList⟩, ⟨.added, "src".toList⟩]

/-- Told in the other order the batch comes to the same, and of its five changes
four become events, in the order of their phases. -/
theorem sample_batch_arranged : ∃ events after,
    sampleWatcher.observe sampleBatch sampleProject = .ok (events, after) sampleProject ∧
      Alike (sampleWatcher.observe sampleBatch sampleProject)
        (sampleWatcher.observe sampleBatch.reverse sampleProject) ∧
      (events.Pairwise fun a b => a.kind.phase ≤ b.kind.phase) ∧
      events.Perm [⟨.addDir, "/src".toList⟩, ⟨.addDir, "/src/client".toList⟩,
        ⟨.change, "/src/client/note.lua".toList⟩, ⟨.unlink, "/src/old.lua".toList⟩] := by
  obtain ⟨halike, hreturns, -, hevents⟩ := observe_batch sampleWatcher sampleBatch sampleProject
  obtain ⟨events, after, h⟩ := hreturns (by decide +kernel)
  obtain ⟨-, hperm, hphases, -⟩ := hevents _ _ _ h
  have hfour : (sampleBatch.filterMap (Change.event? sampleWatcher.known sampleProject)).Perm
      [⟨.addDir, "/src".toList⟩, ⟨.addDir, "/src/client".toList⟩,
        ⟨.change, "/src/client/note.lua".toList⟩, ⟨.unlink, "/src/old.lua".toList⟩] := by
    decide +kernel
  exact ⟨events, after, h, halike _ (List.reverse_perm _).symm, hphases, hperm.trans hfour⟩

end Watch

end ModBuild
