import ModBuild.Proofs.Workspace.Directories

/-!
# How actions fail

The failures of the file system are expected of projects. The others have a
cause that can be pointed at: a path with a null character in it, a file that is
read as text and holds none. Along a sequence of actions the causes add up.
-/

set_option autoImplicit false

namespace ModBuild

theorem bind_failed {α β ε : Type} {a : Except ε α} {f : α → Except ε β} {e : ε}
    (h : (a >>= f) = .error e) : a = .error e ∨ ∃ x, a = .ok x ∧ f x = .error e := by
  cases a with
  | error e' =>
    cases h
    exact .inl rfl
  | ok x => exact .inr ⟨x, rfl, h⟩

theorem Failure.expected_of_fault {e : Failure} (h : ∃ f, e = .fault f) : e.expected = true := by
  obtain ⟨f, rfl⟩ := h
  rfl

inductive Path.Cut (p : Path) : Failure → Prop
  | null (h : '\x00' ∈ p.print) : p.Cut .nullCharacter

theorem Path.Cut.of_prefix {p q : Path} {e : Failure} (h : p.Cut e)
    (hpq : p.segments <+: q.segments) : q.Cut e := by
  obtain ⟨hnull⟩ := h
  obtain ⟨s, hs, hc⟩ := Path.null_of_print hnull
  exact .null (Path.null_print (hpq.subset hs) hc)

theorem Path.Cut.of_parent {p : Path} {e : Failure} (h : p.parent.Cut e) : p.Cut e :=
  h.of_prefix (List.dropLast_prefix _)

namespace Workspace

variable {w : Workspace} {p : Path} {e : Failure}

def Garbled (w : Workspace) (p : Path) : Prop :=
  ∃ b, w.tree.file? (p.location w.current) = some b ∧ Text.decode? b = none

theorem resolve_error (h : w.resolve p = .error e) : (∃ f, e = .fault f) ∨ p.Cut e := by
  unfold resolve at h
  split at h
  · next hnull =>
    cases h
    exact .inr (.null hnull)
  · split at h
    · cases h
    · cases h
      exact .inl ⟨_, rfl⟩

theorem onTree_error {change : Tree → Location → Except Fault Tree}
    (h : w.onTree p change = .error e) : e.expected = true ∨ p.Cut e := by
  rcases bind_failed h with hr | ⟨l, -, h⟩
  · exact (resolve_error hr).imp_left Failure.expected_of_fault
  · split at h
    · cases h
    · cases h
      exact .inl rfl

theorem entry_error (h : w.entry? p = .error e) : e.expected = true := by
  rw [entry_refused h]
  rfl

theorem isDirectory_error (h : w.isDirectory p = .error e) : e.expected = true := by
  rw [isDirectory_refused h]
  rfl

theorem isFile_error (h : w.isFile p = .error e) : e.expected = true := by
  rcases bind_failed h with he | ⟨entry, -, h⟩
  · exact entry_error he
  · split at h <;> cases h

theorem occupied_error (h : w.occupied p = .error e) : e.expected = true := by
  rcases bind_failed h with he | ⟨entry, -, h⟩
  · exact entry_error he
  · cases h

theorem below_error (h : w.below p = .error e) : e.expected = true := by
  rcases bind_failed h with hd | ⟨b, hd, h⟩
  · exact isDirectory_error hd
  · cases b with
    | false => cases h
    | true =>
      have hs : w.Stands p := hd
      rw [hs.resolve] at h
      cases h

theorem filesBelow_error (h : w.filesBelow p = .error e) : e.expected = true := by
  rcases bind_failed h with hb | ⟨l, -, h⟩
  · exact below_error hb
  · cases h

theorem readBytes_error (h : w.readBytes p = .error e) : (∃ f, e = .fault f) ∨ p.Cut e := by
  rcases bind_failed h with hr | ⟨l, -, h⟩
  · exact resolve_error hr
  · split at h <;> cases h <;> exact .inl ⟨_, rfl⟩

theorem readText_error (h : w.readText p = .error e) :
    (∃ f, e = .fault f) ∨ p.Cut e ∨ e = .notText ∧ w.Garbled p := by
  rcases bind_failed h with hb | ⟨b, hb, h⟩
  · exact (readBytes_error hb).imp_right .inl
  · split at h
    · cases h
    · next hdecode =>
      cases h
      exact .inr (.inr ⟨rfl, b, (readBytes_ok hb).2, hdecode⟩)

theorem readText_ofManifest (h : w.readText p = .error e) : e.ofManifest = false := by
  rcases readText_error h with ⟨f, rfl⟩ | hcut | ⟨rfl, -⟩
  · rfl
  · cases hcut
    rfl
  · rfl

theorem readTextIfAny_error (h : w.readText? p = .error e) :
    e.expected = true ∨ e = .notText ∧ w.Garbled p := by
  rcases bind_failed h with hf | ⟨b, hf, h⟩
  · exact .inl (isFile_error hf)
  · cases b with
    | false => cases h
    | true =>
      rcases bind_failed h with ht | ⟨s, -, h⟩
      · rcases readText_error ht with he | hcut | hg
        · exact .inl (Failure.expected_of_fault he)
        · obtain ⟨hnull⟩ := hcut
          exact absurd hnull (resolve_ok (file_of_isFile hf).1).1
        · exact .inr hg
      · cases h

end Workspace

namespace Action

variable {α β : Type}

/-- From workspaces of a kind an action comes to one of the kind, with a result of
a kind; when it fails, then as is expected of projects or for one of the causes. -/
def Safe (I : Workspace → Prop) (C : Failure → Prop) (a : Action α)
    (Q : α → Prop := fun _ => True) : Prop :=
  ∀ w, I w → match a w with
    | .ok x w' => I w' ∧ Q x
    | .error e _ => e.expected = true ∨ C e

section

variable {I : Workspace → Prop} {C C' : Failure → Prop} {Q : α → Prop} {R : β → Prop}
  {a : Action α} {f : α → Action β} {w w' : Workspace} {e : Failure}

theorem safe_of (hok : ∀ w, I w → ∀ x w', a w = .ok x w' → I w' ∧ Q x)
    (herror : ∀ w, I w → ∀ e w', a w = .error e w' → e.expected = true ∨ C e) :
    Safe I C a Q := by
  intro w hw
  cases ha : a w with
  | ok x w' => exact hok w hw x w' ha
  | error e w' => exact herror w hw e w' ha

theorem Safe.ok (h : Safe I C a Q) (hw : I w) {x : α} (ha : a w = .ok x w') : I w' ∧ Q x := by
  have := h w hw
  rwa [ha] at this

theorem Safe.error (h : Safe I C a Q) (hw : I w) (ha : a w = .error e w') :
    e.expected = true ∨ C e := by
  have := h w hw
  rwa [ha] at this

theorem Safe.mono (h : Safe I C a Q) (hC : ∀ e, C e → C' e) : Safe I C' a Q :=
  safe_of (fun _ hw _ _ ha => h.ok hw ha) fun _ hw _ _ ha => (h.error hw ha).imp_right (hC _)

theorem safe_pure {x : α} (hx : Q x) : Safe I C (pure x) Q := fun _ hw => ⟨hw, hx⟩

theorem safe_throw (h : e.expected = true ∨ C e) : Safe I C (throw e : Action α) Q := fun _ _ => h

theorem bind_error {w'' : Workspace} (h : (a >>= f) w = .error e w'') :
    a w = .error e w'' ∨ ∃ x w', a w = .ok x w' ∧ f x w' = .error e w'' := by
  cases ha : a w with
  | error e' w' =>
    rw [bind_of_error ha] at h
    cases h
    exact .inl rfl
  | ok x w' => exact .inr ⟨x, w', rfl, by rwa [bind_of_ok ha] at h⟩

theorem safe_bind (ha : Safe I C a Q) (hf : ∀ x, Q x → Safe I C (f x) R) :
    Safe I C (a >>= f) R := by
  refine safe_of (fun w hw y w'' h => ?_) fun w hw e w'' h => ?_
  · obtain ⟨x, w', hx, hy⟩ := bind_eq_ok.mp h
    obtain ⟨hw', hQ⟩ := ha.ok hw hx
    exact (hf x hQ).ok hw' hy
  · rcases bind_error h with hx | ⟨x, w', hx, h⟩
    · exact ha.error hw hx
    · obtain ⟨hw', hQ⟩ := ha.ok hw hx
      exact (hf x hQ).error hw' h

theorem safe_seq (ha : Safe I C a) (hf : ∀ x, Safe I C (f x) R) : Safe I C (a >>= f) R :=
  safe_bind ha fun x _ => hf x

theorem safe_ask {q : Workspace → Except Failure α} (hok : ∀ w, I w → ∀ x, q w = .ok x → Q x)
    (herror : ∀ w, I w → ∀ e, q w = .error e → e.expected = true ∨ C e) : Safe I C (ask q) Q := by
  refine safe_of (fun w hw x w' h => ?_) fun w hw e w' h => ?_
  · obtain ⟨hx, rfl⟩ := ask_eq_ok.mp h
    exact ⟨hw, hok w hw x hx⟩
  · rw [ask] at h
    cases hq : q w with
    | ok x => rw [hq] at h; cases h
    | error e' =>
      rw [hq] at h
      cases h
      exact herror w hw e hq

theorem safe_forM {f : α → Action Unit} {xs : List α} (h : ∀ x ∈ xs, Safe I C (f x)) :
    Safe I C (xs.forM f) := by
  induction xs with
  | nil => exact safe_pure trivial
  | cons x xs ih =>
    show Safe I C (f x >>= fun _ => xs.forM f)
    exact safe_seq (h x (by simp)) fun _ => ih fun y hy => h y (by simp [hy])

theorem safe_mapM {xs : List α} (h : ∀ x ∈ xs, Safe I C (f x)) : Safe I C (xs.mapM f) := by
  induction xs with
  | nil => exact safe_pure trivial
  | cons x xs ih =>
    rw [List.mapM_cons]
    exact safe_seq (h x (by simp)) fun _ =>
      safe_seq (ih fun y hy => h y (by simp [hy])) fun _ => safe_pure trivial

theorem safe_foldlM {f : β → α → Action β} {xs : List α} (h : ∀ x ∈ xs, ∀ y, Safe I C (f y x))
    (y : β) : Safe I C (xs.foldlM f y) := by
  induction xs generalizing y with
  | nil => exact safe_pure trivial
  | cons x xs ih =>
    rw [List.foldlM_cons]
    exact safe_seq (h x (by simp) y) fun _ => ih (fun z hz => h z (by simp [hz])) _

end

/-! Where in a sequence an action fails. -/

def Fails (a : Action α) (w : Workspace) (e : Failure) : Prop := ∃ w', a w = .error e w'

section

variable {a : Action α} {f : α → Action β} {w : Workspace} {e : Failure}

theorem Safe.not_fails {I : Workspace → Prop} {C : Failure → Prop} {Q : α → Prop}
    (h : Safe I C a Q) (hw : I w) (he : e.expected = false) (hC : ¬ C e) : ¬ Fails a w e := by
  rintro ⟨w', ha⟩
  rcases h.error hw ha with hexpected | hcause
  · rw [he] at hexpected
    cases hexpected
  · exact hC hcause

theorem fails_bind : Fails (a >>= f) w e ↔
    Fails a w e ∨ ∃ x v, a w = .ok x v ∧ Fails (f x) v e := by
  constructor
  · rintro ⟨w', h⟩
    rcases bind_error h with ha | ⟨x, v, ha, hf⟩
    · exact .inl ⟨w', ha⟩
    · exact .inr ⟨x, v, ha, w', hf⟩
  · rintro (⟨w', ha⟩ | ⟨x, v, ha, w', hf⟩)
    · exact ⟨w', bind_of_error ha⟩
    · exact ⟨w', by rw [bind_of_ok ha, hf]⟩

theorem fails_bind_left (hf : ∀ x v, ¬ Fails (f x) v e) : Fails (a >>= f) w e ↔ Fails a w e := by
  rw [fails_bind, or_iff_left]
  rintro ⟨x, v, -, h⟩
  exact hf x v h

theorem fails_bind_right (ha : ¬ Fails a w e) :
    Fails (a >>= f) w e ↔ ∃ x v, a w = .ok x v ∧ Fails (f x) v e := by
  rw [fails_bind, or_iff_right ha]

theorem not_fails_pure {x : α} : ¬ Fails (pure x) w e := by
  rintro ⟨w', h⟩
  cases h

theorem fails_mapM {xs : List α} : Fails (xs.mapM f) w e ↔
    ∃ before x after ys v, xs = before ++ x :: after ∧ before.mapM f w = .ok ys v ∧
      Fails (f x) v e := by
  induction xs generalizing w with
  | nil =>
    refine iff_of_false not_fails_pure ?_
    rintro ⟨before, x, after, ys, v, h, -⟩
    simp at h
  | cons x xs ih =>
    have hrest (y : β) (v : Workspace) :
        Fails (do return y :: (← xs.mapM f)) v e ↔ Fails (xs.mapM f) v e :=
      fails_bind_left fun _ _ => not_fails_pure
    rw [List.mapM_cons, fails_bind]
    constructor
    · rintro (h | ⟨y, v, hx, h⟩)
      · exact ⟨[], x, xs, [], w, rfl, rfl, h⟩
      · obtain ⟨before, z, after, ys, v', rfl, hbefore, h⟩ := ih.mp ((hrest y v).mp h)
        refine ⟨x :: before, z, after, y :: ys, v', rfl, ?_, h⟩
        rw [List.mapM_cons, bind_of_ok hx, bind_of_ok hbefore]
        rfl
    · rintro ⟨before, z, after, ys, v, hsplit, hbefore, h⟩
      rcases List.cons_eq_append_iff.mp hsplit with ⟨rfl, hz⟩ | ⟨before, rfl, rfl⟩
      · cases hz
        obtain ⟨-, rfl⟩ := pure_eq_ok.mp hbefore
        exact .inl h
      · rw [List.mapM_cons] at hbefore
        obtain ⟨y, v', hx, hbefore⟩ := bind_eq_ok.mp hbefore
        obtain ⟨zs, v'', hzs, hbefore⟩ := bind_eq_ok.mp hbefore
        obtain ⟨-, rfl⟩ := pure_eq_ok.mp hbefore
        exact .inr ⟨y, v', hx, (hrest y v').mpr (ih.mpr ⟨before, z, after, zs, _, rfl, hzs, h⟩)⟩

end

/-! Actions that fail in the same ways wherever they are run. -/

def SafeAnywhere (C : Failure → Prop) (a : Action α) : Prop := Safe (fun _ => True) C a

section

variable {C : Failure → Prop} {p : Path} {e : Failure}

theorem safe_attempt {C' : Failure → Prop} {a : Action α} (h : SafeAnywhere C a) :
    Safe (fun _ => True) C' (attempt a) fun r =>
      ∀ e, r = .error e → e.expected = true ∨ C e := by
  refine safe_of (fun w _ r w' hr => ⟨trivial, ?_⟩) fun w _ e w' hr => ?_
  · rintro e rfl
    rcases attempt_eq_ok.mp hr with ⟨x, hx, -⟩ | ⟨e', he, ha⟩
    · cases hx
    · cases he
      exact h.error trivial ha
  · unfold attempt at hr
    split at hr <;> cases hr

theorem change_safe {step : Workspace → Except Failure Workspace}
    (h : ∀ w e, step w = .error e → e.expected = true ∨ C e) : SafeAnywhere C (change step) :=
  safe_of (fun _ _ _ _ _ => ⟨trivial, trivial⟩) fun w _ e _ he => h w e (change_eq_error.mp he).1

theorem log_safe (level : Level) (m : Text) (cause : Option Failure) :
    SafeAnywhere C (log level m cause) := fun _ _ => ⟨trivial, trivial⟩

theorem writeBytes_safe (p : Path) (b : ByteArray) : SafeAnywhere p.Cut (writeBytes p b) :=
  change_safe fun _ _ => Workspace.onTree_error

theorem makeDirectory_safe (p : Path) : SafeAnywhere p.Cut (makeDirectory p) :=
  change_safe fun _ _ => Workspace.onTree_error

theorem removeFileIfAny_safe (p : Path) : SafeAnywhere p.Cut (removeFileIfAny p) := by
  refine change_safe fun w e h => ?_
  unfold Workspace.removeFileIfAny at h
  split at h
  · cases h
  · exact Workspace.onTree_error h

theorem forgive_safe (h : e.expected = true ∨ C e) : SafeAnywhere C (forgive p e) := by
  have hasked : SafeAnywhere C (do if !(← isDirectory p) then throw e : Action Unit) := by
    refine safe_seq (safe_ask (fun _ _ _ _ => trivial) fun w _ f hf =>
      .inl (Workspace.isDirectory_error hf)) fun b => ?_
    cases b with
    | false => exact safe_throw h
    | true => exact safe_pure trivial
  unfold forgive
  split
  · exact safe_throw h
  · exact hasked
  · exact safe_throw h

theorem makeOne_safe (p : Path) : SafeAnywhere p.Cut (makeOne p) := by
  refine safe_bind (safe_attempt (makeDirectory_safe p)) fun r hr => ?_
  split
  · exact safe_pure trivial
  · exact forgive_safe (hr _ rfl)

theorem makeDirectoriesFrom_safe (anchor : Anchor) (ss : List Segment) :
    SafeAnywhere (Path.Cut ⟨anchor, ss.reverse⟩) (makeDirectoriesFrom anchor ss) := by
  induction ss with
  | nil => exact makeOne_safe _
  | cons s outer ih =>
    refine safe_bind (safe_attempt (makeDirectory_safe _)) fun r hr => ?_
    split
    · exact safe_pure trivial
    · refine safe_seq (ih.mono fun e he => he.of_prefix ?_) fun _ => makeOne_safe _
      rw [List.reverse_cons]
      exact List.prefix_append _ _
    · exact forgive_safe (hr _ rfl)

theorem makeDirectories_safe (p : Path) : SafeAnywhere p.Cut (makeDirectories p) := by
  have h := makeDirectoriesFrom_safe p.anchor p.segments.reverse
  rwa [List.reverse_reverse] at h

theorem writeText_safe (p : Path) (s : Option Text) (hcut : ∀ e, p.Cut e → C e)
    (hnone : s = none → C .notEncodable) : SafeAnywhere C (writeText? p s) := by
  cases s with
  | some t => exact (writeBytes_safe p _).mono hcut
  | none =>
    exact safe_seq ((writeBytes_safe p _).mono hcut) fun _ => safe_throw (.inr (hnone rfl))

theorem andThen_safe {a : Action α} {after : Action Unit} (h : SafeAnywhere C a)
    (hafter : SafeAnywhere C after) : SafeAnywhere C (andThen a after) := by
  refine safe_of (fun _ _ _ _ _ => ⟨trivial, trivial⟩) fun w _ e w' he => ?_
  unfold andThen at he
  cases ha : a w with
  | ok x v =>
    rw [ha] at he
    dsimp only at he
    split at he
    · cases he
    · next hf =>
      cases he
      exact hafter.error trivial hf
  | error f v =>
    rw [ha] at he
    dsimp only at he
    split at he
    · cases he
      exact h.error trivial ha
    · next hf =>
      cases he
      exact hafter.error trivial hf

end

end Action

end ModBuild
