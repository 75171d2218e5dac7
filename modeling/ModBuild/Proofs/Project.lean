import ModBuild.Project
import ModBuild.Proofs.Workspace.Failing

/-!
# How a project is read

The manifest and the configuration are read from five files below the root, and
reading changes nothing. So where a directory is made in between, the same is
read as before.
-/

set_option autoImplicit false

namespace ModBuild

open Asset (along div_name location_along)

namespace Workspace

variable {w : Workspace} {base : Path} {way : Location}

theorem readTextIfAny_along (hs : w.Stands base) (hway : ∀ n ∈ way, n.Fits) :
    w.readText? (along base way) =
      if (along base way).Fits then
        match w.tree.file? (base.location w.current ++ way) with
        | none => .ok none
        | some b =>
          match Text.decode? b with
          | none => .error .notText
          | some s => .ok (some (Text.unifyBreaks s))
      else .error (.fault .nameTooLong) := by
  by_cases hfits : (along base way).Fits
  · rw [if_pos hfits]
    obtain ⟨e, he⟩ := entry_of_fits (w := w) hfits
    rw [readText?, isFile, he, Tree.file?, ← entry_along hs way hfits.1 he]
    rcases e with _ | _ | b
    · rfl
    · rfl
    · obtain ⟨hr, hget⟩ := resolve_of_entry he
      have hread := readBytes_of_file hr ((w.tree.file_eq_some _ b).mpr hget)
      simp only [bind, Except.bind, readText, hread, Entry.bytes?]
      cases Text.decode? b <;> rfl
  · rw [if_neg hfits]
    cases he : w.entry? (along base way) with
    | ok e => exact absurd (fits_of_entry hs hway he) hfits
    | error f =>
      obtain rfl := entry_refused he
      rw [readText?, isFile, he]
      rfl

theorem readTextIfAny_leads {v : Workspace} {D : Location → Prop} (hs : w.Stands base)
    (h : w.Leads D [] v) (hway : ∀ n ∈ way, n.Fits) :
    v.readText? (along base way) = w.readText? (along base way) := by
  rw [readTextIfAny_along hs hway, readTextIfAny_along (hs.leads h) hway, h.current,
    h.file_untouched (by simp)]

end Workspace

namespace Layout

variable {layout : Layout} {w v : Workspace}

def manifestName : Name := ⟨"mod.info".toList, by decide⟩

def packageName : Name := ⟨"package.json".toList, by decide⟩

def settings (layout : Layout) : List Path :=
  [layout.package, layout.header, layout.footer, layout.deferralTemplate]

def settingWays : List Location :=
  [[packageName], [scriptsName, ⟨"header.txt".toList, by decide⟩],
    [scriptsName, ⟨"footer.txt".toList, by decide⟩],
    [scriptsName, ⟨"reimport_template.lua".toList, by decide⟩]]

theorem manifest_eq (layout : Layout) : layout.manifest = along layout.root [manifestName] :=
  div_name layout.root manifestName

theorem settings_eq (layout : Layout) :
    layout.settings = settingWays.map (along layout.root) := by
  have hscript (n : Name) : layout.scripts / n.text = along layout.root [scriptsName, n] := by
    rw [div_name, scripts_eq, Asset.along_along]
    rfl
  simp only [settings, settingWays, List.map_cons, List.map_nil, ← hscript]
  rw [← div_name]
  rfl

theorem settings_leads {D : Location → Prop} (hs : w.Stands layout.root) (h : w.Leads D [] v) :
    ∀ p ∈ layout.settings, v.readText? p = w.readText? p := by
  have hfits : ∀ way ∈ settingWays, ∀ n ∈ way, n.Fits := by decide
  rw [settings_eq, List.forall_mem_map]
  exact fun way hway => Workspace.readTextIfAny_leads hs h (hfits way hway)

end Layout

namespace Action

/-- In either of two workspaces an action comes to the same answer and leaves the
workspace as it is. -/
def Alike {α : Type} (v w : Workspace) (a : Action α) : Prop :=
  ∃ r : Except Failure α, a v = ofExcept r v ∧ a w = ofExcept r w

section

variable {α β : Type} {v w v' : Workspace} {a : Action α} {f : α → Action β}

theorem alike_pure (x : α) : Alike v w (pure x) := ⟨.ok x, rfl, rfl⟩

theorem alike_ask {q : Workspace → Except Failure α} (h : q v = q w) : Alike v w (ask q) :=
  ⟨q w, by rw [ask, h]; rfl, rfl⟩

theorem alike_bind (ha : Alike v w a) (hf : ∀ x, Alike v w (f x)) : Alike v w (a >>= f) := by
  obtain ⟨r, hv, hw⟩ := ha
  cases r with
  | error e => exact ⟨.error e, by rw [bind_of_error hv]; rfl, by rw [bind_of_error hw]; rfl⟩
  | ok x =>
    obtain ⟨r', hv', hw'⟩ := hf x
    exact ⟨r', by rw [bind_of_ok hv, hv'], by rw [bind_of_ok hw, hw']⟩

theorem alike_attempt (h : Alike v w a) : Alike v w (attempt a) := by
  obtain ⟨r, hv, hw⟩ := h
  refine ⟨.ok r, ?_, ?_⟩
  · rw [attempt, hv]
    cases r <;> rfl
  · rw [attempt, hw]
    cases r <;> rfl

theorem Alike.of_ok (h : Alike v w a) {x : α} (ha : a v = .ok x v') :
    v' = v ∧ a w = .ok x w := by
  obtain ⟨r, hv, hw⟩ := h
  rw [hv] at ha
  cases r with
  | error e => cases ha
  | ok y =>
    cases ha
    exact ⟨rfl, hw⟩

theorem Alike.of_error (h : Alike v w a) {e : Failure} (ha : a v = .error e v') :
    v' = v ∧ a w = .error e w := by
  obtain ⟨r, hv, hw⟩ := h
  rw [hv] at ha
  cases r with
  | ok y => cases ha
  | error f =>
    cases ha
    exact ⟨rfl, hw⟩

theorem Alike.answers (h : Alike v w a) {r : Except Failure α}
    (hr : ((attempt a).result? w).map Prod.fst = some r) : a w = ofExcept r w := by
  obtain ⟨r', -, hw⟩ := h
  cases r' with
  | ok x =>
    rw [result?, attempt_of_ok hw] at hr
    cases hr
    exact hw
  | error e =>
    rw [result?, attempt_of_error hw] at hr
    cases hr
    exact hw

theorem Alike.symm (h : Alike v w a) : Alike w v a := by
  obtain ⟨r, hv, hw⟩ := h
  exact ⟨r, hw, hv⟩

end

end Action

namespace Project

open ModBuild.Action

variable {layout : Layout} {info? : Option Manifest} {w v : Workspace}

theorem loadManifest_of_text {p : Path} {s : Text} (h : w.readText p = .ok s) :
    loadManifest p w = match Manifest.parse s with
      | .ok info => .ok info w
      | .error field => .error (.manifest (.missingField field)) w := by
  have hload : attempt (readText p) w = .ok (.ok s) w := by
    rw [attempt, readText, ask, h]
  rw [loadManifest, bind_of_ok hload]
  dsimp only
  cases Manifest.parse s <;> rfl

theorem loadManifest_cases (p : Path) (w : Workspace) :
    (∃ s info, w.readText p = .ok s ∧ loadManifest p w = .ok info w) ∨
      (∃ defect, (∀ e, w.readText p = .error e → e = .fault .notFound) ∧
        loadManifest p w = .error (.manifest defect) w) ∨
      ∃ e, w.readText p = .error e ∧ e ≠ .fault .notFound ∧ loadManifest p w = .error e w := by
  cases h : w.readText p with
  | ok s =>
    rw [loadManifest_of_text h]
    cases Manifest.parse s with
    | ok info => exact .inl ⟨s, info, rfl, rfl⟩
    | error field => exact .inr (.inl ⟨.missingField field, (fun e he => by cases he), rfl⟩)
  | error e =>
    have hload : attempt (readText p) w = .ok (.error e) w := by
      rw [attempt, readText, ask, h]
    rw [loadManifest, bind_of_ok hload]
    by_cases he : e = .fault .notFound
    · subst he
      exact .inr (.inl ⟨.notFound p.print, fun _ h => (Except.error.inj h).symm, rfl⟩)
    · refine .inr (.inr ⟨e, rfl, he, ?_⟩)
      cases e with
      | fault f =>
        cases f with
        | notFound => exact absurd rfl he
        | _ => rfl
      | _ => rfl

theorem configure_alike (h : ∀ p ∈ layout.settings, v.readText? p = w.readText? p) :
    Alike v w (configure layout info?) := by
  have hask {p : Path} (hp : p ∈ layout.settings) : Alike v w (ask (·.readText? p)) :=
    alike_ask (h p hp)
  refine alike_bind (alike_bind (hask (by simp [Layout.settings])) fun s? => ?_) fun _ => ?_
  · split
    · exact alike_pure _
    · exact alike_bind (alike_ask rfl) fun _ => alike_pure _
  · refine alike_bind (hask (by simp [Layout.settings])) fun _ => ?_
    refine alike_bind (hask (by simp [Layout.settings])) fun _ => ?_
    exact alike_bind (hask (by simp [Layout.settings])) fun _ => alike_pure _

theorem text_of_loadManifest {p : Path} {info : Manifest} (h : loadManifest p w = .ok info v) :
    ∃ s, w.readText p = .ok s := by
  rcases loadManifest_cases p w with ⟨s, _, hs, -⟩ | ⟨_, -, he⟩ | ⟨_, -, -, he⟩
  · exact ⟨s, hs⟩
  · cases he.symm.trans h
  · cases he.symm.trans h

theorem loadManifest_alike {p : Path} (h : v.readText p = w.readText p) :
    Alike v w (loadManifest p) := by
  refine alike_bind (alike_attempt (alike_ask h)) fun read => ?_
  split
  · exact ⟨.error _, rfl, rfl⟩
  · exact ⟨.error _, rfl, rfl⟩
  · split
    · exact alike_pure _
    · exact ⟨.error _, rfl, rfl⟩

/-- Why a project cannot be configured that the file system does not hinder: a file
that configures it holds no text, or nothing can be made of the package. -/
inductive Unconfigured (layout : Layout) (w : Workspace) : Failure → Prop
  | garbled {p : Path} (hp : p ∈ layout.settings) (h : w.Garbled p) :
      Unconfigured layout w .notText
  | package {s : Text} {e : Failure} (h : w.readText? layout.package = .ok (some s))
      (hparse : parsePackage layout.package s = .error e) : Unconfigured layout w e

theorem configure_failed {e : Failure} (h : configure layout info? w = .error e v) :
    e.expected = true ∨ Unconfigured layout w e := by
  have hask {p : Path} (hp : p ∈ layout.settings) :
      Safe (· = w) (Unconfigured layout w) (ask (·.readText? p)) fun s? =>
        w.readText? p = .ok s? := by
    refine safe_ask ?_ ?_
    · rintro v rfl s? hs
      exact hs
    · rintro v rfl e he
      refine (Workspace.readTextIfAny_error he).imp_right ?_
      rintro ⟨rfl, hgarbled⟩
      exact .garbled hp hgarbled
  have hrest {p : Path} (hp : p ∈ layout.settings) {β : Type} {f : Option Text → Action β}
      (hf : ∀ s?, Safe (· = w) (Unconfigured layout w) (f s?)) :
      Safe (· = w) (Unconfigured layout w) (ask (·.readText? p) >>= f) :=
    safe_bind (hask hp) fun s? _ => hf s?
  refine Safe.error (I := (· = w)) (Q := fun _ => True) ?_ rfl h
  refine safe_seq (safe_bind (hask (by simp [Layout.settings])) fun s? hs => ?_) fun _ => ?_
  · split
    · exact safe_pure trivial
    · refine safe_seq (safe_ask (fun _ _ _ _ => trivial) fun _ _ e he => ?_) fun _ =>
        safe_pure trivial
      exact .inr (.package hs he)
  · exact hrest (by simp [Layout.settings]) fun _ => hrest (by simp [Layout.settings]) fun _ =>
      hrest (by simp [Layout.settings]) fun _ => safe_pure trivial

end Project

end ModBuild
