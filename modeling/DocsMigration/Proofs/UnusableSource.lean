import DocsMigration.Proofs.Schedules
/-! An unusable source costs the site nothing. A run takes hold of its source and reads the navigation
before its first step, and only then can it fail for a reason that lies in the source; all that comes later
fails for the reasons that file operations have. So a run that has changed something had a source that it
could use. -/

namespace DocsMigration

namespace MigrationError

/-- Whether a file operation has failed. -/
def OfFile (e : MigrationError) : Prop := ∃ p cause, e = .file p cause

/-- Whether the source cannot be used: it cannot be cloned, or lacks the docs directory or the navigation
file, or its navigation cannot be read. -/
def OfSource : MigrationError → Prop
  | .notCloned _ | .missingDocs _ | .missingNavigation _ => True
  | .unreadableNavigation _ _ | .malformedNavigation => True
  | .file _ _ => False

theorem ofSource_iff {e : MigrationError} : e.OfSource ↔ ¬ e.OfFile := by
  cases e <;> simp [OfSource, OfFile]

end MigrationError

namespace Work

variable {ε α β : Type} {E : ε → Prop}

/-- Whether work fails with no other errors than those. -/
def FailsWith (E : ε → Prop) (work : Work ε α) : Prop := ∀ w e, (work.outcome w).1 = .error e → E e

theorem failsWith_pure (a : α) : (pure a : Work ε α).FailsWith E := by
  intro w e h
  contradiction

theorem failsWith_throw {e : ε} (he : E e) : (throw e : Work ε α).FailsWith E := by
  intro w e' h
  exact Except.error.inj h ▸ he

theorem failsWith_ask (f : Disk → Location → α) : (ask f : Work ε α).FailsWith E := by
  intro w e h
  contradiction

theorem failsWith_bind {x : Work ε β} {f : β → Work ε α} (hx : x.FailsWith E)
    (hf : ∀ b, (f b).FailsWith E) : (x >>= f).FailsWith E := by
  intro w e h
  rw [outcome_bind] at h
  rcases hout : x.outcome w with ⟨r, v⟩
  rw [hout] at h
  cases r with
  | error e' =>
    obtain rfl := Except.error.inj h
    exact hx w _ (by rw [hout])
  | ok b => exact hf b v e h

theorem failsWith_mapM {f : β → Work ε α} {xs : List β} (hf : ∀ x, (f x).FailsWith E) :
    (xs.mapM f).FailsWith E := by
  induction xs with
  | nil => exact failsWith_pure _
  | cons x xs ih =>
    rw [List.mapM_cons]
    exact failsWith_bind (hf x) fun _ => failsWith_bind ih fun _ => failsWith_pure _

theorem failsWith_forM {f : β → Work ε Unit} {xs : List β} (hf : ∀ x, (f x).FailsWith E) :
    (xs.forM f).FailsWith E := by
  induction xs with
  | nil => exact failsWith_pure _
  | cons x xs ih => exact failsWith_bind (x := f x) (hf x) fun _ => ih

theorem failsWith_attempt (work : Work ε α) : work.attempt.FailsWith E := by
  intro w e h
  contradiction

theorem failsWith_reportedAt (p : Path) (work : Work FileError α) :
    (MigrationWork.reportedAt p work).FailsWith MigrationError.OfFile := by
  intro w e h
  rw [outcome_reportedAt] at h
  obtain ⟨cause, -, rfl⟩ := mapError_eq_error.1 h
  exact ⟨p, cause, rfl⟩

theorem failsWith_makeHolder (p : Path) : (MigrationWork.makeHolder p).FailsWith MigrationError.OfFile := by
  unfold MigrationWork.makeHolder
  split
  · exact failsWith_reportedAt _ _
  · exact failsWith_pure _

end Work

open Work

namespace CopiedAsset

variable {source target : Path}

theorem failsWith_copyEntry {copyInner : Path → Path → MigrationWork Nat}
    (hinner : ∀ p q, (copyInner p q).FailsWith MigrationError.OfFile) (x : Name × Entry) :
    (copyEntry copyInner source target x).FailsWith MigrationError.OfFile := by
  obtain ⟨n, e⟩ := x
  unfold copyEntry
  cases e with
  | directory => exact hinner _ _
  | file c => exact failsWith_bind (failsWith_reportedAt _ _) fun _ => failsWith_pure _
  | link p => exact failsWith_pure _

theorem failsWith_copyEntries {copyInner : Path → Path → MigrationWork Nat}
    (hinner : ∀ p q, (copyInner p q).FailsWith MigrationError.OfFile) (entries : List (Name × Entry)) :
    (copyEntries copyInner source target entries).FailsWith MigrationError.OfFile := by
  induction entries with
  | nil => exact failsWith_pure _
  | cons x rest ih =>
    rw [copyEntries_cons]
    exact failsWith_bind (failsWith_copyEntry hinner x) fun _ => failsWith_bind ih fun _ => failsWith_pure _

theorem failsWith_copyTreeWithin (depth : Nat) (source target : Path) :
    (copyTreeWithin depth source target).FailsWith MigrationError.OfFile := by
  induction depth generalizing source target with
  | zero => exact failsWith_throw ⟨source, _, rfl⟩
  | succ depth ih =>
    refine failsWith_bind (failsWith_reportedAt _ _) fun _ => ?_
    exact failsWith_bind (failsWith_reportedAt _ _) fun entries => failsWith_copyEntries ih entries

theorem failsWith_makeRoom (target : Path) (replace : Bool) :
    (makeRoom target replace).FailsWith MigrationError.OfFile := by
  refine failsWith_bind (failsWith_ask _) fun isThere => ?_
  split_ifs
  · exact failsWith_reportedAt _ _
  · exact failsWith_pure _

theorem failsWith_copy (docs site : Path) (a : Asset) :
    (copy docs site a).FailsWith MigrationError.OfFile := by
  rw [copy_eq]
  refine failsWith_bind (failsWith_ask _) fun isDirectory => ?_
  split_ifs
  · refine failsWith_bind (failsWith_makeRoom _ _) fun _ => ?_
    exact failsWith_bind (failsWith_copyTreeWithin _ _ _) fun _ => failsWith_pure _
  · refine failsWith_bind (failsWith_ask _) fun isFile => ?_
    split_ifs
    · refine failsWith_bind (failsWith_bind (failsWith_makeHolder _) fun _ => ?_) fun _ => failsWith_pure _
      exact failsWith_reportedAt _ _
    · exact failsWith_pure _

end CopiedAsset

namespace Scaffold

theorem failsWith_writeMissing (p : Path) (s : Text) :
    (writeMissing p s).FailsWith MigrationError.OfFile := by
  refine failsWith_bind (failsWith_ask _) fun isThere => ?_
  split_ifs
  · exact failsWith_pure _
  · refine failsWith_bind (failsWith_makeHolder _) fun _ => ?_
    exact failsWith_bind (failsWith_reportedAt _ _) fun _ => failsWith_pure _

end Scaffold

namespace Document

variable {d : Disk} {cwd : Location}

theorem ofFile_of_scanEntry {scanInner : Path → Text → Except MigrationError (List Document)}
    (hinner : ∀ p above e, scanInner p above = .error e → e.OfFile) {directory : Path} {above : Text}
    {x : Name × Entry} {e : MigrationError} (h : scanEntry scanInner directory above x = .error e) :
    e.OfFile := by
  unfold scanEntry at h
  split at h
  · contradiction
  · split at h
    · exact hinner _ _ e h
    · split at h <;> contradiction

theorem ofFile_of_scanEntries {scanInner : Path → Text → Except MigrationError (List Document)}
    (hinner : ∀ p above e, scanInner p above = .error e → e.OfFile) {directory : Path} {above : Text}
    {entries : List (Name × Entry)} {e : MigrationError}
    (h : scanEntries scanInner directory above entries = .error e) : e.OfFile := by
  induction entries with
  | nil => contradiction
  | cons x rest ih =>
    rw [scanEntries_cons] at h
    rcases bind_eq_error.1 h with h | ⟨_, -, h⟩
    · exact ofFile_of_scanEntry hinner h
    · rcases bind_eq_error.1 h with h | ⟨_, -, h⟩
      · exact ih h
      · contradiction

theorem ofFile_of_scanWithin {o : Enumeration} {depth : Nat} {directory : Path} {above : Text}
    {e : MigrationError} (h : scanWithin o d cwd depth directory above = .error e) : e.OfFile := by
  induction depth generalizing directory above e with
  | zero => exact Except.error.inj h ▸ ⟨directory, _, rfl⟩
  | succ depth ih =>
    rw [scanWithin] at h
    rcases bind_eq_error.1 h with h | ⟨_, -, h⟩
    · obtain ⟨cause, -, rfl⟩ := mapError_eq_error.1 h
      exact ⟨directory, cause, rfl⟩
    · exact ofFile_of_scanEntries (fun _ _ _ => ih) h

theorem ofFile_of_scanBy {o : Enumeration} {docs : Path} {e : MigrationError}
    (h : scanBy o d cwd docs = .error e) : e.OfFile := by
  unfold scanBy at h
  split_ifs at h
  · rcases bind_eq_error.1 h with h | ⟨_, -, h⟩
    · exact ofFile_of_scanWithin h
    · contradiction
  · contradiction

theorem failsWith_findAll (docs : Path) : (findAll docs).FailsWith MigrationError.OfFile := by
  intro w e h
  rw [outcome_findAll] at h
  exact ofFile_of_scanBy h

end Document

namespace Checkout

variable {repositories : Repositories} {s : SourceSettings} {w : Workspace} {l : Location}

/-- Opening a checkout and closing it again changes nothing: a clone is put where nothing is. -/
theorem get?_closed_opened :
    (closed repositories (chosen s w) (opened repositories (chosen s w) w.disk)).get? l = w.disk.get? l := by
  by_cases hl : (chosen s w).Outside l
  · rw [get?_closed_of_outside hl, get?_opened hl]
  · have hnone : w.disk.get? l = none := Option.eq_none_iff_forall_ne_some.2 fun e he => hl (outside_of_some he)
    cases hpath : s.path with
    | some p =>
      rw [chosen, hpath] at hl
      exact absurd trivial hl
    | none =>
      rw [chosen, hpath] at hl ⊢
      cases hlookup : repositories.lookup s.repositoryUrl with
      | none => simp only [closed, opened, hlookup]
      | some files =>
        have hnil : l ≠ [] := by
          rintro rfl
          contradiction
        simp only [closed, opened, hlookup]
        rw [get?_dropClone hnil, if_pos (not_not.1 hl), hnone]

end Checkout

namespace Migration

open Checkout

variable {schedule : Schedule} {repositories : Repositories} {c : Config} {checkout : Checkout}
  {n : Navigation} {d : Disk} {cwd : Location} {w w' : Workspace}

theorem ofSource_of_navigationOf {e : MigrationError} (h : navigationOf c checkout d cwd = .error e) :
    e.OfSource := by
  unfold navigationOf at h
  split_ifs at h
  · exact Except.error.inj h ▸ trivial
  · exact Except.error.inj h ▸ trivial
  · rcases bind_eq_error.1 h with h | ⟨s, -, h⟩
    · obtain ⟨cause, -, rfl⟩ := mapError_eq_error.1 h
      trivial
    · cases hparse : Navigation.parse? s with
      | none =>
        rw [hparse] at h
        exact Except.error.inj h ▸ trivial
      | some n =>
        rw [hparse] at h
        contradiction

theorem failsWith_migratePage (doc : Document) : (migratePage c n doc).FailsWith MigrationError.OfFile := by
  refine failsWith_bind (failsWith_reportedAt _ _) fun text => ?_
  refine failsWith_bind (failsWith_makeHolder _) fun _ => ?_
  exact failsWith_bind (failsWith_reportedAt _ _) fun _ => failsWith_pure _

theorem failsWith_beforeScan (docs : Path) : (beforeScan c docs).FailsWith MigrationError.OfFile := by
  refine failsWith_bind (failsWith_bind ?_ fun _ => failsWith_pure _) fun copied => ?_
  · exact failsWith_mapM fun a => CopiedAsset.failsWith_copy docs c.site.root a
  · exact failsWith_bind (Scaffold.failsWith_writeMissing _ _) fun _ => failsWith_pure _

theorem failsWith_executeAll {task : Document → MigrationWork MigratedPage} {late : Nat} {order : List Document}
    (htask : ∀ doc, (task doc).FailsWith MigrationError.OfFile) :
    (executeAll task late order).FailsWith MigrationError.OfFile := by
  induction order with
  | nil => exact failsWith_pure _
  | cons doc order ih =>
    intro w e h
    rw [executeAll_cons_outcome] at h
    rcases hout : (task doc).outcome w with ⟨e' | page, v⟩ <;> rw [hout] at h
    · have he' : e'.OfFile := htask doc w e' (by rw [hout])
      have hlate : ((order.take late).forM fun doc => do
          let _ ← Work.attempt (task doc)).FailsWith MigrationError.OfFile :=
        failsWith_forM fun doc => failsWith_bind (failsWith_attempt (task doc)) fun _ => failsWith_pure ()
      exact failsWith_bind hlate (fun _ => failsWith_throw he') v e h
    · exact failsWith_bind ih (fun _ => failsWith_pure _) v e h

theorem failsWith_afterScan (found : List Document) :
    (afterScan schedule c n found).FailsWith MigrationError.OfFile := by
  refine failsWith_bind (failsWith_executeAll failsWith_migratePage) fun pages => ?_
  refine failsWith_bind (failsWith_mapM fun s => ?_) fun _ => failsWith_pure _
  exact failsWith_bind (Scaffold.failsWith_writeMissing _ _) fun _ => failsWith_pure _

/-- All that comes after the navigation has been read fails only as file operations do. -/
theorem ofFile_of_runFrom {e : MigrationError} (hn : navigationOf c checkout w.disk w.cwd = .ok n)
    (h : ((runFrom schedule c checkout).outcome w).1 = .error e) : e.OfFile := by
  have hrest : (do
      let before ← beforeScan c (docsOf c checkout)
      let documents ← Document.findAll (docsOf c checkout)
      let after ← afterScan schedule c n documents
      return reportOf c checkout n before after).FailsWith MigrationError.OfFile := by
    refine failsWith_bind (failsWith_beforeScan _) fun before => ?_
    refine failsWith_bind (Document.failsWith_findAll _) fun documents => ?_
    exact failsWith_bind (failsWith_afterScan _) fun _ => failsWith_pure _
  rw [runFrom_eq, outcome_bind, outcome_inspect, hn] at h
  exact hrest w e h

theorem runFrom_outcome_of_error (schedule : Schedule) {e : MigrationError}
    (hn : navigationOf c checkout w.disk w.cwd = .error e) :
    (runFrom schedule c checkout).outcome w = (.error e, w) := by
  rw [runFrom_eq, outcome_bind, outcome_inspect, hn]

/-- Whether a run can use its source: it is at hand, the docs directory and the navigation file exist, and
the navigation file is one. -/
structure Usable (repositories : Repositories) (c : Config) (w : Workspace) : Prop where
  available : (chosen c.source w).Available repositories
  docs : (opened repositories (chosen c.source w) w.disk).isDirectory w.cwd (docsOf c (chosen c.source w))
  file : (opened repositories (chosen c.source w) w.disk).isFile w.cwd (navigationFileOf c (chosen c.source w))
  navigation : ∃ s n,
    (opened repositories (chosen c.source w) w.disk).readText w.cwd (navigationFileOf c (chosen c.source w)) =
      .ok s ∧ Navigation.parse? s = some n

theorem usable_iff : Usable repositories c w ↔ (chosen c.source w).Available repositories ∧
    ∃ n, navigationOf c (chosen c.source w) (opened repositories (chosen c.source w) w.disk) w.cwd = .ok n := by
  constructor
  · rintro ⟨havailable, hdocs, hfile, s, n, hs, hn⟩
    exact ⟨havailable, n, navigationOf_eq_ok_iff.2 ⟨hdocs, hfile, s, hs, hn⟩⟩
  · rintro ⟨havailable, n, hn⟩
    obtain ⟨hdocs, hfile, s, hs, hn⟩ := navigationOf_eq_ok_iff.1 hn
    exact ⟨havailable, hdocs, hfile, s, n, hs, hn⟩

/-- With a source that can be used, a run fails only as file operations do. -/
theorem Usable.ofFile {e : MigrationError} (h : Usable repositories c w)
    (hrun : ((runBy schedule repositories c).outcome w).1 = .error e) : e.OfFile := by
  obtain ⟨havailable, n, hn⟩ := usable_iff.1 h
  rw [runBy, withCheckout_outcome _ _ _ havailable] at hrun
  exact ofFile_of_runFrom (w := { w with disk := opened repositories (chosen c.source w) w.disk }) hn hrun

/-- With a source that cannot be used, a run fails for that, and nothing is done. -/
theorem runBy_of_not_usable (schedule : Schedule) (h : ¬ Usable repositories c w) :
    ∃ e, ((runBy schedule repositories c).outcome w).1 = .error e ∧ e.OfSource ∧
      ((runBy schedule repositories c).outcome w).2.journal = w.journal ∧
      ∀ l, ((runBy schedule repositories c).outcome w).2.disk.get? l = w.disk.get? l := by
  by_cases havailable : (chosen c.source w).Available repositories
  · cases hn : navigationOf c (chosen c.source w) (opened repositories (chosen c.source w) w.disk) w.cwd with
    | ok n => exact absurd (usable_iff.2 ⟨havailable, n, hn⟩) h
    | error e =>
      have hfrom := runFrom_outcome_of_error schedule
        (w := { w with disk := opened repositories (chosen c.source w) w.disk }) hn
      rw [runBy, withCheckout_outcome _ _ _ havailable, hfrom]
      exact ⟨e, rfl, ofSource_of_navigationOf hn, rfl, fun l => get?_closed_opened⟩
  · rw [runBy, withCheckout_outcome_of_not _ _ _ havailable]
    exact ⟨_, rfl, trivial, rfl, fun _ => rfl⟩

/-- An unusable source costs nothing. A run, whatever its configuration and the order of its pages, fails
for a reason that lies in the source exactly if it cannot use the source; then it has done no step, and
everything is as it was before. So where a run has done a step or changed something, it could use its source,
and if it fails all the same, a file operation has failed. -/
theorem unusable_source_costs_nothing {result : Except MigrationError Report}
    (hrun : (runBy schedule repositories c).outcome w = (result, w')) :
    ((∃ e, result = .error e ∧ e.OfSource) ↔ ¬ Usable repositories c w) ∧
    (∀ e, result = .error e → e.OfSource → w'.journal = w.journal ∧
      ∀ l, w'.disk.get? l = w.disk.get? l) ∧
    ((w'.journal ≠ w.journal ∨ ∃ l, w'.disk.get? l ≠ w.disk.get? l) →
      Usable repositories c w ∧ ∀ e, result = .error e → e.OfFile) := by
  by_cases husable : Usable repositories c w
  · have hfile : ∀ e, result = .error e → e.OfFile := by
      intro e he
      have hfailed : ((runBy schedule repositories c).outcome w).1 = .error e := by rw [hrun, he]
      exact husable.ofFile hfailed
    have hsource : ∀ e, result = .error e → ¬ e.OfSource := by
      intro e he hsource
      exact MigrationError.ofSource_iff.1 hsource (hfile e he)
    refine ⟨iff_of_false (fun ⟨e, he, h⟩ => hsource e he h) (not_not.2 husable), ?_, ?_⟩
    · exact fun e he h => absurd h (hsource e he)
    · exact fun _ => ⟨husable, hfile⟩
  · obtain ⟨e, he, hsource, hjournal, hkept⟩ := runBy_of_not_usable schedule husable
    rw [hrun] at he hjournal hkept
    refine ⟨iff_of_true ⟨e, he, hsource⟩ husable, fun _ _ _ => ⟨hjournal, hkept⟩, fun hchanged => ?_⟩
    rcases hchanged with hstep | ⟨l, hne⟩
    · exact absurd hjournal hstep
    · exact absurd (hkept l) hne

/-- A repository with the given navigation next to a site, whose directory of assets it replaces. -/
def replacedSite (navigation : String) : Workspace where
  disk := ⟨[
    (located ["repo"], .directory),
    (located ["repo", "docshift.toml"], .file (.text ("sections = []\n".toList ++
      "assets = [\x7b from = \"assets\", to = \"static/assets\", replace = true \x7d]\n".toList))),
    (located ["repo", "mkdocs.yml"], .file (.text navigation.toList)),
    (located ["repo", "docs"], .directory),
    (located ["repo", "docs", "assets"], .directory),
    (located ["repo", "docs", "assets", "new.png"], .file (.text "new".toList)),
    (located ["site"], .directory),
    (located ["site", "static"], .directory),
    (located ["site", "static", "assets"], .directory),
    (located ["site", "static", "assets", "old.png"], .file (.text "old".toList))]⟩
  cwd := []
  journal := []

def replacedConfig : Config where
  source := ⟨Config.defaultRepositoryUrl, some ⟨"repo".toList⟩, "docs".toList, "mkdocs.yml".toList⟩
  site := ⟨⟨"site".toList⟩, 99, true⟩
  rewriters := {}
  sections := []
  assets := [⟨"assets".toList, "static/assets".toList, true⟩]
  file := some ⟨"repo/docshift.toml".toList⟩

/-- While the navigation is malformed, the old assets stay; when it is repaired, they are replaced. -/
theorem old_assets_kept_until_repaired :
    Config.load [] (replacedSite "nav: [unclosed\n") (some ⟨"repo/docshift.toml".toList⟩) guideOverrides =
      .ok replacedConfig ∧
    ((run [] replacedConfig).outcome (replacedSite "nav: [unclosed\n")).1 = .error .malformedNavigation ∧
    ¬ Usable [] replacedConfig (replacedSite "nav: [unclosed\n") ∧
    (∀ l, ((run [] replacedConfig).outcome (replacedSite "nav: [unclosed\n")).2.disk.get? l =
      (replacedSite "nav: [unclosed\n").disk.get? l) ∧
    ((run [] replacedConfig).outcome (replacedSite "nav: []\n")).2.disk.get?
      (located ["site", "static", "assets", "old.png"]) = none ∧
    Usable [] replacedConfig (replacedSite "nav: []\n") := by
  have hload : Config.load [] (replacedSite "nav: [unclosed\n") (some ⟨"repo/docshift.toml".toList⟩)
      guideOverrides = .ok replacedConfig := by decide +kernel
  have hmalformed : ((run [] replacedConfig).outcome (replacedSite "nav: [unclosed\n")).1 =
      .error .malformedNavigation := by decide +kernel
  have hgone : ((run [] replacedConfig).outcome (replacedSite "nav: []\n")).2.disk.get?
      (located ["site", "static", "assets", "old.png"]) = none := by decide +kernel
  have hold : (replacedSite "nav: []\n").disk.get? (located ["site", "static", "assets", "old.png"]) ≠
      none := by decide +kernel
  rw [run] at hmalformed hgone ⊢
  rcases hbroken : (runBy .listed [] replacedConfig).outcome (replacedSite "nav: [unclosed\n") with ⟨result, w'⟩
  rcases hrepaired : (runBy .listed [] replacedConfig).outcome (replacedSite "nav: []\n") with ⟨result', w''⟩
  rw [hbroken] at hmalformed
  rw [hrepaired] at hgone
  obtain ⟨hiff, hkept, -⟩ := unusable_source_costs_nothing hbroken
  obtain ⟨-, -, hchanged⟩ := unusable_source_costs_nothing hrepaired
  refine ⟨hload, hmalformed, hiff.1 ⟨_, hmalformed, trivial⟩, fun l => ?_, hgone, ?_⟩
  · exact (hkept _ hmalformed trivial).2 l
  · refine (hchanged (.inr ⟨located ["site", "static", "assets", "old.png"], ?_⟩)).1
    rw [hgone]
    exact hold.symm

end Migration

end DocsMigration
