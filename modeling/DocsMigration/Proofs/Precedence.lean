import DocsMigration.Proofs.Settings
/-! Overrides take precedence over the configuration file, but only once the file has been read. All
references in the file are expanded by then, those in settings that are overridden as well, and one to a
variable that is missing ends the loading. That is the only way in which a value that is overridden can
show: of two files that differ in such values alone, the same comes out exactly if the same reference of
theirs is the first that cannot be expanded, or if all of them can be. -/

namespace DocsMigration

namespace Config

variable {env : Environment} {p : Path} {s s' : FileSettings} {o : Overrides}

section Reading

/-- Whether a configuration comes from the file `p` with the settings `s`. -/
def ReadsFrom (w : Workspace) (file : Option Path) (p : Path) (s : FileSettings) : Prop :=
  (file = some p ∨ file = none ∧ discover? w = some p) ∧
    ∃ text, w.disk.readText w.cwd p = .ok text ∧ FileSettings.parse? text = some s

/-- What the settings of a file are resolved to. -/
def settle (env : Environment) (p : Path) (s : FileSettings) : Except ConfigError Config := do
  let directory := p.parent?.getD ⟨Path.currentName⟩
  let source ← resolveSource env directory s.source
  let site ← resolveSite env directory s.site
  return ⟨source, site, s.rewriters, s.sections, s.assets, some p⟩

theorem pathExists_of_readText {d : Disk} {cwd : Location} {text : Text}
    (h : d.readText cwd p = .ok text) : d.pathExists cwd p := by
  obtain ⟨c, hfile, -⟩ := bind_eq_ok.1 h
  obtain ⟨x, hfind, -⟩ := bind_eq_ok.1 hfile
  simp [Disk.pathExists, Disk.entry?, hfind]

theorem read_of_readsFrom {w : Workspace} {file : Option Path} (h : ReadsFrom w file p s) :
    read env w file = settle env p s := by
  obtain ⟨hfile, text, htext, hparse⟩ := h
  have hof : ofFile env w p = settle env p s := by
    simp only [ofFile, htext, Except.mapError, bind, Except.bind, hparse]
    rfl
  rcases hfile with rfl | ⟨rfl, hfound⟩
  · rw [read, if_pos (pathExists_of_readText htext), hof]
  · rw [read, hfound]
    exact hof

end Reading

section References

def missingIn (field : String) : Except Text Text → Option (Text × Text)
  | .ok _ => none
  | .error name => some (field.toList, name)

def missingInSource (env : Environment) (s : FileSource) : Option (Text × Text) :=
  (s.repositoryUrl.bind fun url => missingIn "source.repo_url" (Expansion.expand env url)).or
    (s.path.bind fun path => missingIn "source.path" (Expansion.expandPath env path))

def missingInSite (env : Environment) (s : FileSite) : Option (Text × Text) :=
  s.root.bind fun root => missingIn "site.root" (Expansion.expandPath env root)

/-- The first reference in a file that cannot be expanded: the field it stands in, and the variable. -/
def missing? (env : Environment) (s : FileSettings) : Option (Text × Text) :=
  (missingInSource env s.source).or (missingInSite env s.site)

def expanded : Except Text Text → Text
  | .ok value => value
  | .error _ => []

def settledSource (env : Environment) (directory : Path) (s : FileSource) : SourceSettings where
  repositoryUrl :=
    (s.repositoryUrl.map fun url => expanded (Expansion.expand env url)).getD defaultRepositoryUrl
  path := s.path.map fun path => directory.join ⟨expanded (Expansion.expandPath env path)⟩
  docsDirectory := s.docsDirectory.getD defaultDocsDirectory
  navigationFile := s.navigationFile.getD defaultNavigationFile

def settledSite (env : Environment) (directory : Path) (s : FileSite) : SiteSettings where
  root :=
    (s.root.map fun root => directory.join ⟨expanded (Expansion.expandPath env root)⟩).getD directory
  defaultWeight := s.defaultWeight.getD defaultWeight
  homePage := s.homePage.getD true

/-- The configuration of a file in which all references can be expanded. -/
def settled (env : Environment) (p : Path) (s : FileSettings) : Config :=
  let directory := p.parent?.getD ⟨Path.currentName⟩
  ⟨settledSource env directory s.source, settledSite env directory s.site, s.rewriters, s.sections,
    s.assets, some p⟩

def unlessMissing {α : Type} (a : α) : Option (Text × Text) → Except ConfigError α
  | some (field, name) => .error (.unsetVariable field name)
  | none => .ok a

theorem inField_eq (field : String) (r : Except Text Text) :
    inField field r = unlessMissing (expanded r) (missingIn field r) := by
  cases r <;> rfl

theorem unlessMissing_bind {α β : Type} (a : α) (m : Option (Text × Text)) (f : α → Except ConfigError β)
    (b : β) (m' : Option (Text × Text)) (hf : f a = unlessMissing b m') :
    unlessMissing a m >>= f = unlessMissing b (m.or m') := by
  cases m with
  | none => exact hf
  | some m => rfl

theorem unlessMissing_map {α β : Type} (a : α) (m : Option (Text × Text)) (f : α → β) :
    (unlessMissing a m >>= fun a => pure (f a)) = unlessMissing (f a) m := by
  cases m <;> rfl

theorem resolveSource_eq (env : Environment) (directory : Path) (s : FileSource) :
    resolveSource env directory s =
      unlessMissing (settledSource env directory s) (missingInSource env s) := by
  obtain ⟨url, path, docs, navigation⟩ := s
  rcases url with _ | url <;> rcases path with _ | path
  · rfl
  · rw [resolveSource]
    dsimp only
    rw [inField_eq]
    exact unlessMissing_map _ _ _
  · rw [resolveSource]
    dsimp only
    rw [inField_eq]
    exact unlessMissing_bind _ _ _ _ _ rfl
  · rw [resolveSource]
    dsimp only
    rw [inField_eq, inField_eq]
    exact unlessMissing_bind _ _ _ _ _ (unlessMissing_map _ _ _)

theorem resolveSite_eq (env : Environment) (directory : Path) (s : FileSite) :
    resolveSite env directory s =
      unlessMissing (settledSite env directory s) (missingInSite env s) := by
  obtain ⟨root, weight, home⟩ := s
  cases root with
  | none => rfl
  | some root =>
    rw [resolveSite]
    dsimp only
    rw [inField_eq]
    exact unlessMissing_map _ _ _

/-- Reading a file fails exactly if a reference in it cannot be expanded. -/
theorem settle_eq (env : Environment) (p : Path) (s : FileSettings) :
    settle env p s = unlessMissing (settled env p s) (missing? env s) := by
  rw [settle, resolveSource_eq]
  refine unlessMissing_bind _ _ _ _ _ ?_
  rw [resolveSite_eq]
  exact unlessMissing_map _ _ _

end References

section Overridden

def SameUnless {α β : Type} (override : Option β) (a b : Option α) : Prop :=
  override.isSome ∧ a.isSome ∧ b.isSome ∨ a = b

/-- Whether the settings of two files differ in nothing but the values of overridden settings, which are
in both files. -/
structure DifferInOverridden (o : Overrides) (s s' : FileSettings) : Prop where
  repositoryUrl : SameUnless o.repositoryUrl s.source.repositoryUrl s'.source.repositoryUrl
  path : SameUnless o.sourcePath s.source.path s'.source.path
  root : SameUnless o.siteRoot s.site.root s'.site.root
  defaultWeight : SameUnless o.defaultWeight s.site.defaultWeight s'.site.defaultWeight
  docsDirectory : s.source.docsDirectory = s'.source.docsDirectory
  navigationFile : s.source.navigationFile = s'.source.navigationFile
  homePage : s.site.homePage = s'.site.homePage
  rewriters : s.rewriters = s'.rewriters
  sections : s.sections = s'.sections
  assets : s.assets = s'.assets

theorem SameUnless.getD_eq {α β : Type} {override : Option β} {a b : Option α}
    (h : SameUnless override a b) (f : Option α → β) : override.getD (f a) = override.getD (f b) := by
  rcases h with ⟨hsome, -⟩ | rfl
  · obtain ⟨x, rfl⟩ := Option.isSome_iff_exists.1 hsome
    rfl
  · rfl

theorem SameUnless.or_eq {α β : Type} {override : Option β} {a b : Option α}
    (h : SameUnless override a b) (f : Option α → Option β) : override.or (f a) = override.or (f b) := by
  rcases h with ⟨hsome, -⟩ | rfl
  · obtain ⟨x, rfl⟩ := Option.isSome_iff_exists.1 hsome
    rfl
  · rfl

/-- The overrides hide every difference between the two configurations. -/
theorem DifferInOverridden.apply_settled_eq (h : DifferInOverridden o s s') (env : Environment) (p : Path) :
    o.apply (settled env p s) = o.apply (settled env p s') := by
  have hurl := h.repositoryUrl.getD_eq fun a =>
    (a.map fun url => expanded (Expansion.expand env url)).getD defaultRepositoryUrl
  have hpath := h.path.or_eq fun a => a.map fun path =>
    (p.parent?.getD ⟨Path.currentName⟩).join ⟨expanded (Expansion.expandPath env path)⟩
  have hroot := h.root.getD_eq fun a => (a.map fun root =>
    (p.parent?.getD ⟨Path.currentName⟩).join ⟨expanded (Expansion.expandPath env root)⟩).getD
      (p.parent?.getD ⟨Path.currentName⟩)
  have hweight := h.defaultWeight.getD_eq fun a => a.getD Config.defaultWeight
  simp only [Overrides.apply, settled, settledSource, settledSite, hurl, hpath, hroot, hweight,
    h.docsDirectory, h.navigationFile, h.homePage, h.rewriters, h.sections, h.assets]

def checked (o : Overrides) (c : Config) : Except ConfigError Config := do
  (validate (o.apply c)).mapError .invalid
  return o.apply c

theorem checked_ne_unsetVariable (o : Overrides) (c : Config) (field name : Text) :
    checked o c ≠ .error (.unsetVariable field name) := by
  unfold checked
  cases validate (o.apply c) <;> simp [bind, Except.bind, Except.mapError, pure, Except.pure]

theorem load_of_readsFrom {w : Workspace} {file : Option Path} (h : ReadsFrom w file p s) :
    load env w file o = unlessMissing (settled env p s) (missing? env s) >>= checked o := by
  rw [load, read_of_readsFrom h, settle_eq]
  rfl

/-- Two files that differ in overridden values alone give the same configuration, or the same error, exactly
if the first reference that cannot be expanded is the same in both, or none is in either. -/
theorem load_eq_iff {w w' : Workspace} {file file' : Option Path} (hs : ReadsFrom w file p s)
    (hs' : ReadsFrom w' file' p s') (h : DifferInOverridden o s s') :
    load env w file o = load env w' file' o ↔ missing? env s = missing? env s' := by
  rw [load_of_readsFrom hs, load_of_readsFrom hs']
  have happly : checked o (settled env p s) = checked o (settled env p s') := by
    unfold checked
    rw [h.apply_settled_eq]
  cases hm : missing? env s with
  | none =>
    cases hm' : missing? env s' with
    | none => exact ⟨fun _ => rfl, fun _ => happly⟩
    | some m => exact ⟨fun heq => absurd heq (checked_ne_unsetVariable _ _ _ _), by simp⟩
  | some m =>
    cases hm' : missing? env s' with
    | none => exact ⟨fun heq => absurd heq.symm (checked_ne_unsetVariable _ _ _ _), by simp⟩
    | some m' =>
      constructor
      · intro heq
        have herror : ConfigError.unsetVariable m.1 m.2 = .unsetVariable m'.1 m'.2 := Except.error.inj heq
        obtain ⟨hfield, hname⟩ := ConfigError.unsetVariable.inj herror
        rw [Prod.ext hfield hname]
      · intro heq
        rw [Option.some.inj heq]
        rfl

/-- The working directory with a configuration file that has nothing but the root of the site. -/
def rootOnly (root : Text) : Workspace where
  disk := ⟨[(["docshift.toml".toList],
    .file (.text ("[site]\nroot = \"".toList ++ root ++ "\"\n".toList)))]⟩
  cwd := []
  journal := []

def rootSettings (root : Text) : FileSettings where
  source := ⟨none, none, none, none⟩
  site := ⟨some root, none, none⟩
  rewriters := {}
  sections := defaultSections
  assets := defaultAssets

def rootOverride : Overrides where
  siteRoot := some ⟨"out".toList⟩

def referringRoot : Text := "$\x7bSITE\x7d".toList

def plainRoot : Text := "site".toList

theorem readsFrom_rootOnly : ∀ root ∈ [referringRoot, plainRoot],
    ReadsFrom (rootOnly root) (some fileName) fileName (rootSettings root) := by
  intro root hroot
  refine ⟨.inl rfl, "[site]\nroot = \"".toList ++ root ++ "\"\n".toList, ?_⟩
  revert root
  decide +kernel

theorem differInOverridden_root (root root' : Text) :
    DifferInOverridden rootOverride (rootSettings root) (rootSettings root') :=
  ⟨.inr rfl, .inr rfl, .inl ⟨rfl, rfl, rfl⟩, .inr rfl, rfl, rfl, rfl, rfl, rfl, rfl⟩

/-- Where the variable is set, the root in the file has no influence. -/
theorem load_eq_with_variable :
    ReadsFrom (rootOnly referringRoot) (some fileName) fileName (rootSettings referringRoot) ∧
    ReadsFrom (rootOnly plainRoot) (some fileName) fileName (rootSettings plainRoot) ∧
    DifferInOverridden rootOverride (rootSettings referringRoot) (rootSettings plainRoot) ∧
    load [("SITE".toList, "web".toList)] (rootOnly referringRoot) (some fileName) rootOverride =
      load [("SITE".toList, "web".toList)] (rootOnly plainRoot) (some fileName) rootOverride :=
  have hreferring := readsFrom_rootOnly referringRoot (by simp)
  have hplain := readsFrom_rootOnly plainRoot (by simp)
  ⟨hreferring, hplain, differInOverridden_root _ _,
    (load_eq_iff hreferring hplain (differInOverridden_root _ _)).2 (by decide +kernel)⟩

/-- Where it is missing, the file cannot be loaded, although the root in it is overridden. -/
theorem overridden_root_unset :
    ReadsFrom (rootOnly referringRoot) (some fileName) fileName (rootSettings referringRoot) ∧
    ReadsFrom (rootOnly plainRoot) (some fileName) fileName (rootSettings plainRoot) ∧
    DifferInOverridden rootOverride (rootSettings referringRoot) (rootSettings plainRoot) ∧
    load [] (rootOnly referringRoot) (some fileName) rootOverride =
      .error (.unsetVariable "site.root".toList "SITE".toList) ∧
    (load [] (rootOnly plainRoot) (some fileName) rootOverride).isOk :=
  ⟨readsFrom_rootOnly referringRoot (by simp), readsFrom_rootOnly plainRoot (by simp),
    differInOverridden_root _ _, by decide +kernel, by decide +kernel⟩

end Overridden

end Config

end DocsMigration
