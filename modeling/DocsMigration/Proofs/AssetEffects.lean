import DocsMigration.Proofs.TreeCopies
/-! The effect of copying assets. The target of a directory that is to be replaced shows the source and nothing
else afterwards, and otherwise the source before what was there; a file is found at its target, a source that
is missing changes nothing, and several assets are copied one after the other. For that, the path of the target
has to go straight to its place. The target is cleared only if its path finds something, and a path that backs
out of a missing directory finds nothing before the directories on the way are made; the directory at its place
is then filled up instead of replaced. -/

namespace DocsMigration

open Disk Work

namespace CopiedAsset

variable {source target : Path} {w w' : Workspace}

section Straight

/-- Whether a path, as it is written, goes straight to its place: past nothing but the directories above the
place and others that are there. To be replaced, a place needs a path that is not empty and does not go on
below it. -/
def Straight (d : Disk) (cwd : Location) (p : Path) (replace : Bool) : Prop :=
  (replace → p.text ≠ []) ∧ ∀ m ∈ p.way cwd, m <+: p.place cwd ∨
    d.get? m = some .directory ∧ (replace → ¬ p.place cwd <+: m)

instance (d : Disk) (cwd : Location) (p : Path) (replace : Bool) : Decidable (Straight d cwd p replace) :=
  inferInstanceAs (Decidable (_ ∧ _))

/-- Whether outside a place nothing was changed but that directories above it were made. -/
def ChangedWithin (T : Location) (start done : Disk) : Prop := ∀ m, ¬ T <+: m →
  done.get? m = start.get? m ∨ m <+: T ∧ start.get? m = none ∧ done.get? m = some .directory

variable {cwd m : Location} {start done : Disk} {replace cleared : Bool} {content : Content}

theorem changedWithin (hstraight : Straight start cwd target replace)
    (hmade : ∀ m ∈ target.way cwd, ¬ target.place cwd <+: m → done.get? m = some .directory)
    (hopened : ∀ m ∈ target.way cwd, ¬ target.place cwd <+: m →
      start.get? m = none ∨ start.get? m = some .directory)
    (hkept : ∀ m, m ∉ target.way cwd → ¬ target.place cwd <+: m → done.get? m = start.get? m) :
    ChangedWithin (target.place cwd) start done := by
  intro m hm
  by_cases hway : m ∈ target.way cwd
  · have hdir := hmade m hway hm
    rcases hopened m hway hm with hnone | hthere
    · rcases hstraight.2 m hway with habove | ⟨hthere, -⟩
      · exact .inr ⟨habove, hnone, hdir⟩
      · exact .inl (hdir.trans hthere.symm)
    · exact .inl (hdir.trans hthere.symm)
  · exact .inl (hkept m hway hm)

theorem FileCopied.changedWithin (h : FileCopied cwd start done target content)
    (hstraight : Straight start cwd target replace) : ChangedWithin (target.place cwd) start done := by
  have hne {m : Location} (hm : ¬ target.place cwd <+: m) : m ≠ target.place cwd :=
    fun heq => hm (heq ▸ List.prefix_rfl)
  exact CopiedAsset.changedWithin hstraight (fun m hm hno => h.made m hm (hne hno))
    (fun m hm hno => h.opened m hm (hne hno)) fun m hm _ => h.kept m hm

theorem TreeCopied.kept_outside (h : TreeCopied cwd start done source target cleared)
    (hway : m ∉ target.way cwd) (hm : ¬ target.place cwd <+: m) : done.get? m = start.get? m := by
  rw [h.kept m hway fun r hr => absurd (hr ▸ List.prefix_append _ r) hm, if_neg fun hc => hm hc.2]

theorem TreeCopied.changedWithin (h : TreeCopied cwd start done source target cleared)
    (hstraight : Straight start cwd target replace) : ChangedWithin (target.place cwd) start done :=
  CopiedAsset.changedWithin hstraight (fun m hm _ => h.made m hm)
    (fun m hm hno => h.opened m hm fun hc => hno hc.2) fun _ hm hno => h.kept_outside hm hno

/-- The files outside the target are those that were there, whatever directories were made. -/
theorem TreeCopied.file_iff (h : TreeCopied cwd start done source target cleared)
    (hm : ¬ target.place cwd <+: m) :
    start.get? m = some (.file content) ↔ done.get? m = some (.file content) := by
  by_cases hway : m ∈ target.way cwd
  · rw [h.made m hway]
    rcases h.opened m hway fun hc => hm hc.2 with hnone | hdir
    · simp [hnone]
    · simp [hdir]
  · rw [h.kept_outside hway hm]

theorem found_of_straight (hd : start.Plain) (haddr : Addresses target target.names)
    (hstraight : Straight start cwd target replace) (hdir : start.get? (target.place cwd) = some .directory) :
    start.pathExists cwd target := by
  refine hd.pathExists_iff.2 ⟨leads_of_way haddr fun m hm => ?_, by simp [hdir]⟩
  rcases hstraight.2 m hm with habove | ⟨hthere, -⟩
  · by_cases heq : m = target.place cwd
    · exact heq ▸ hdir
    · exact hd.get?_of_prefix (by simp [hdir]) habove heq
  · exact hthere

/-- After a directory was copied to a straight path that was to be replaced, nothing is left of what had been
there: it was cleared, or nothing had been there. -/
theorem TreeCopied.cleared_or_vacant
    (h : TreeCopied cwd start done source target (start.pathExists cwd target)) (hd : start.Plain)
    (haddr : Addresses target target.names) (hstraight : Straight start cwd target replace) :
    start.pathExists cwd target = true ∨ ∀ r, start.get? (target.place cwd ++ r) = none := by
  by_cases hexists : start.pathExists cwd target
  · exact .inl hexists
  refine .inr fun r => ?_
  have hplace : start.get? (target.place cwd) = none := by
    rcases h.opened _ Location.along_mem_visited fun hc => hexists hc.1 with hnone | hdir
    · exact hnone
    · exact absurd (found_of_straight hd haddr hstraight hdir) hexists
  by_contra hsome
  by_cases hr : r = []
  · exact hsome (by rwa [hr, List.append_nil])
  · have hdir := hd.get?_of_prefix hsome (List.prefix_append _ r) (by simpa using Ne.symm hr)
    exact absurd (hplace.symm.trans hdir) (by simp)

/-- On a straight path, a directory is copied as it is: the place shows the source alone if it was to be
replaced, and else the source before what was there. -/
theorem TreeCopied.exact
    (h : TreeCopied cwd start done source target (replace && start.pathExists cwd target))
    (hd : start.Plain) (hapart : (source.place cwd).Apart (target.place cwd))
    (hdir : start.get? (source.place cwd) = some .directory)
    (haddr : replace → Addresses target target.names) (hstraight : Straight start cwd target replace)
    (r : Location) :
    done.get? (target.place cwd ++ r) = if replace then start.get? (source.place cwd ++ r)
      else (start.get? (source.place cwd ++ r)).or (start.get? (target.place cwd ++ r)) := by
  have hsource : done.get? (source.place cwd ++ r) = start.get? (source.place cwd ++ r) := by
    rcases h.changedWithin hstraight _ (hapart.not_below (r := r)) with heq | ⟨habove, -⟩
    · exact heq
    · exact absurd ((List.prefix_append _ r).trans habove) hapart.1
  cases hshown : start.get? (source.place cwd ++ r) with
  | some e => simp [h.copied r e (hsource.trans hshown)]
  | none =>
    have hr : r ≠ [] := by
      rintro rfl
      simp [hdir] at hshown
    by_cases hway : target.place cwd ++ r ∈ target.way cwd
    · -- only a place that is not replaced may have the path going on below it
      rcases hstraight.2 _ hway with habove | ⟨hthere, hno⟩
      · exact absurd (by simpa using habove.length_le) hr
      · have hkept : replace = false := by
          by_contra hreplace
          exact hno (by simpa using hreplace) (List.prefix_append _ r)
        simp [hkept, h.made _ hway, hthere]
    · have hkept := h.kept _ hway fun r' hr' => by
        rw [← List.append_cancel_left hr']
        exact hsource.trans hshown
      rw [hkept]
      cases hreplace : replace with
      | false => simp
      | true =>
        subst hreplace
        rw [Bool.true_and] at h
        rcases h.cleared_or_vacant hd (haddr rfl) hstraight with hexists | hvacant
        · simp [hexists]
        · simp [hvacant]

end Straight

section Assets

variable {docs site : Path} {a : Asset} {copied : Option CopiedAsset} {files : Nat} {w₁ : Workspace}

/-- How an asset is copied: as a directory, as a file, or not at all. -/
theorem copy_cases (hd : w.disk.Plain) (hout : (copy docs site a).outcome w = (.ok copied, w')) :
    (w.disk.entry? w.cwd (docs.join ⟨a.source⟩) = some .directory ∧
      ∃ files w₁, copied = some ⟨⟨a.target⟩, files⟩ ∧
        (makeRoom (site.join ⟨a.target⟩) a.replace).outcome w = (.ok (), w₁) ∧
          (copyTree (docs.join ⟨a.source⟩) (site.join ⟨a.target⟩)).outcome w₁ = (.ok files, w')) ∨
    (∃ content, w.disk.entry? w.cwd (docs.join ⟨a.source⟩) = some (.file content) ∧
      copied = some ⟨⟨a.target⟩, 1⟩ ∧
        (copyFile (docs.join ⟨a.source⟩) (site.join ⟨a.target⟩)).outcome w = (.ok (), w')) ∨
    (w.disk.entry? w.cwd (docs.join ⟨a.source⟩) = none ∧ copied = none ∧ w' = w) := by
  rw [copy_eq, outcome_ask_bind] at hout
  split_ifs at hout with hdir
  · obtain ⟨_, w₁, hroom, hout⟩ := outcome_bind_eq_ok.1 hout
    obtain ⟨files, _, hcopy, hout⟩ := outcome_bind_eq_ok.1 hout
    obtain ⟨rfl, rfl⟩ := outcome_pure_eq_ok.1 hout
    exact .inl ⟨beq_iff_eq.1 hdir, files, w₁, rfl, hroom, hcopy⟩
  rw [outcome_ask_bind] at hout
  split_ifs at hout with hfile
  · obtain ⟨content, hcontent⟩ := isFile_iff.1 hfile
    obtain ⟨_, _, hcopy, hout⟩ := outcome_bind_eq_ok.1 hout
    obtain ⟨rfl, rfl⟩ := outcome_pure_eq_ok.1 hout
    exact .inr (.inl ⟨content, hcontent, rfl, hcopy⟩)
  · obtain ⟨rfl, rfl⟩ := outcome_pure_eq_ok.1 hout
    refine .inr (.inr ⟨?_, rfl, rfl⟩)
    cases he : w'.disk.entry? w'.cwd (docs.join ⟨a.source⟩) with
    | none => rfl
    | some e =>
      cases e with
      | directory => exact absurd (beq_iff_eq.2 he) hdir
      | file content => exact absurd (isFile_iff.2 ⟨content, he⟩) hfile
      | link l => exact absurd (hd.entry?_eq_some.1 he).2 (hd.linkless _ l)

theorem replaced_copied {replace : Bool} (hd : w.disk.Plain)
    (hapart : (source.place w.cwd).Apart (target.place w.cwd))
    (hcwd : target.text = [] → w.disk.get? w.cwd = some .directory)
    (hroom : (makeRoom target replace).outcome w = (.ok (), w₁))
    (hcopy : (copyTree source target).outcome w₁ = (.ok files, w')) :
    w'.cwd = w.cwd ∧ w.disk.HasFiles (source.place w.cwd) files ∧
      TreeCopied w.cwd w.disk w'.disk source target (replace && w.disk.pathExists w.cwd target) ∧
        (target.text ≠ [] → Addresses target target.names) := by
  obtain ⟨cs, hw, hcs, hdone⟩ : (makeRoom target replace).Does _ _ w := makeRoom_does hd
  rw [hroom] at hw hdone
  obtain rfl : w₁ = w.after cs := hw
  obtain ⟨hcleared, hframe⟩ := hdone () rfl
  have hempty (htext : target.text = []) : w.disk.pathExists w.cwd target = false := by
    by_contra hexists
    exact (hd.pathExists_iff.1 (by simpa using hexists)).1.1.1 htext
  have hcwd' : target.text = [] → (w.after cs).disk.get? w.cwd = some .directory := by
    intro htext
    rw [if_neg (by simp [hempty htext])] at hcleared
    exact (congrArg (·.get? w.cwd) hcleared).trans (hcwd htext)
  obtain ⟨hcwd'', hfiles, hcopied, haddr⟩ :=
    tree_copied (w := w.after cs) (hd.after_fits (fun _ _ h => h.1) hcs) hapart hcwd' hcopy
  have heffect : TreeCopied w.cwd w.disk w'.disk source target
      (replace && w.disk.pathExists w.cwd target) := by
    split_ifs at hcleared with hclear
    · rw [hclear]
      exact hcopied.of_cleared hcleared hframe
    · rw [Bool.not_eq_true] at hclear
      rw [hclear, ← hcleared]
      exact hcopied
  exact ⟨hcwd'', hfiles.congr fun r c => heffect.file_iff hapart.not_below, heffect, haddr⟩

/-- What copying an asset has come to, with what is reported of it. The effect holds whatever the path of
the target is like, and on a straight path it comes to the source alone or the source before what was
there, and to new directories above. -/
inductive Done (docs site : Path) (a : Asset) (w w' : Workspace) : List CopiedAsset → Prop
  | directory {files : Nat}
      (source : w.disk.entry? w.cwd (docs.join ⟨a.source⟩) = some .directory)
      (cwd : w'.cwd = w.cwd)
      (count : w.disk.HasFiles ((docs.join ⟨a.source⟩).place w.cwd) files)
      (effect : TreeCopied w.cwd w.disk w'.disk (docs.join ⟨a.source⟩) (site.join ⟨a.target⟩)
        (a.replace && w.disk.pathExists w.cwd (site.join ⟨a.target⟩)))
      (straight : Straight w.disk w.cwd (site.join ⟨a.target⟩) a.replace →
        ChangedWithin ((site.join ⟨a.target⟩).place w.cwd) w.disk w'.disk ∧
        ∀ r, w'.disk.get? ((site.join ⟨a.target⟩).place w.cwd ++ r) =
          if a.replace then w.disk.get? ((docs.join ⟨a.source⟩).place w.cwd ++ r)
          else (w.disk.get? ((docs.join ⟨a.source⟩).place w.cwd ++ r)).or
            (w.disk.get? ((site.join ⟨a.target⟩).place w.cwd ++ r))) :
      Done docs site a w w' [⟨⟨a.target⟩, files⟩]
  | file {content : Content}
      (source : w.disk.entry? w.cwd (docs.join ⟨a.source⟩) = some (.file content))
      (cwd : w'.cwd = w.cwd)
      (effect : FileCopied w.cwd w.disk w'.disk (site.join ⟨a.target⟩) content)
      (straight : Straight w.disk w.cwd (site.join ⟨a.target⟩) false →
        ChangedWithin ((site.join ⟨a.target⟩).place w.cwd) w.disk w'.disk) :
      Done docs site a w w' [⟨⟨a.target⟩, 1⟩]
  | missing
      (source : w.disk.entry? w.cwd (docs.join ⟨a.source⟩) = none)
      (unchanged : w' = w) :
      Done docs site a w w' []

theorem done_of_copy (hd : w.disk.Plain)
    (hapart : ((docs.join ⟨a.source⟩).place w.cwd).Apart ((site.join ⟨a.target⟩).place w.cwd))
    (hcwd : (site.join ⟨a.target⟩).text = [] → w.disk.get? w.cwd = some .directory)
    (hout : (copy docs site a).outcome w = (.ok copied, w')) : Done docs site a w w' copied.toList := by
  rcases copy_cases hd hout with ⟨hsource, files, w₁, rfl, hroom, hcopy⟩ | ⟨content, hsource, rfl, hcopy⟩ |
    ⟨hsource, rfl, hw⟩
  · obtain ⟨hcwd', hfiles, heffect, haddr⟩ := replaced_copied hd hapart hcwd hroom hcopy
    have hdir := (hd.entry?_eq_some.1 hsource).2
    exact .directory hsource hcwd' hfiles heffect fun hstraight => ⟨heffect.changedWithin hstraight,
      heffect.exact hd hapart hdir (fun hreplace => haddr (hstraight.1 hreplace)) hstraight⟩
  · have hcontent := (hd.entry?_eq_some.1 hsource).2
    have hne : (docs.join ⟨a.source⟩).place w.cwd ≠ (site.join ⟨a.target⟩).place w.cwd :=
      fun heq => hapart.1 (heq ▸ List.prefix_rfl)
    obtain ⟨hcwd', heffect⟩ := file_copied hd hcontent hne hcopy
    exact .file hsource hcwd' heffect heffect.changedWithin
  · exact .missing hsource hw

theorem copyAll_singleton : copyAll docs site [a] = do return (← copy docs site a).toList := by
  simp only [copyAll, List.mapM_cons, List.mapM_nil, bind_assoc, pure_bind]
  refine bind_congr fun copied => ?_
  cases copied <;> rfl

theorem copyAll_append (as bs : List Asset) : copyAll docs site (as ++ bs) = do
    let first ← copyAll docs site as
    let rest ← copyAll docs site bs
    return first ++ rest := by
  simp only [copyAll, List.mapM_append, bind_assoc, pure_bind, List.filterMap_append]

/-- Copying assets has the effect that each of them tells, and reports it. One that is copied alone, between
places that are apart, leaves what `Done` tells; of none, nothing comes; and a row of them is copied by
copying its parts one after the other. -/
theorem copyAll_effect (docs site : Path) :
    (∀ (a : Asset) (w w' : Workspace) (report : List CopiedAsset), w.disk.Plain →
      ((docs.join ⟨a.source⟩).place w.cwd).Apart ((site.join ⟨a.target⟩).place w.cwd) →
      ((site.join ⟨a.target⟩).text = [] → w.disk.get? w.cwd = some .directory) →
      (copyAll docs site [a]).outcome w = (.ok report, w') → Done docs site a w w' report) ∧
    copyAll docs site [] = pure [] ∧
    ∀ as bs, copyAll docs site (as ++ bs) = do
      let first ← copyAll docs site as
      let rest ← copyAll docs site bs
      return first ++ rest := by
  refine ⟨fun a w w' report hd hapart hcwd hout => ?_, rfl, copyAll_append⟩
  rw [copyAll_singleton] at hout
  obtain ⟨copied, w₁, hcopy, hout⟩ := outcome_bind_eq_ok.1 hout
  obtain ⟨rfl, rfl⟩ := outcome_pure_eq_ok.1 hout
  exact done_of_copy hd hapart hcwd hcopy

def staleSite : Workspace where
  disk := ⟨[
    (["docs".toList], .directory),
    (["docs".toList, "img".toList], .directory),
    (["docs".toList, "img".toList, "new.png".toList], .file (.text "new".toList)),
    (["docs".toList, "img".toList, "icons".toList], .directory),
    (["docs".toList, "img".toList, "icons".toList, ".dot".toList], .file (.text "dot".toList)),
    (["site".toList], .directory),
    (["site".toList, "img".toList], .directory),
    (["site".toList, "img".toList, "old.png".toList], .file (.text "old".toList))]⟩
  cwd := []
  journal := []

def images : Asset := ⟨"img".toList, "img".toList, true⟩

/-- The old image goes when the directory is replaced. -/
theorem stale_image_replaced :
    staleSite.disk.Plain ∧
    (((⟨"docs".toList⟩ : Path).join ⟨images.source⟩).place []).Apart
      (((⟨"site".toList⟩ : Path).join ⟨images.target⟩).place []) ∧
    Straight staleSite.disk [] ((⟨"site".toList⟩ : Path).join ⟨images.target⟩) images.replace ∧
    ∃ w', (copyAll ⟨"docs".toList⟩ ⟨"site".toList⟩ [images]).outcome staleSite =
        (.ok [⟨⟨"img".toList⟩, 2⟩], w') ∧
      Done ⟨"docs".toList⟩ ⟨"site".toList⟩ images staleSite w' [⟨⟨"img".toList⟩, 2⟩] := by
  have hplain : staleSite.disk.Plain := plain_of_isTree (by decide +kernel)
  have hapart : (((⟨"docs".toList⟩ : Path).join ⟨images.source⟩).place []).Apart
      (((⟨"site".toList⟩ : Path).join ⟨images.target⟩).place []) := by decide +kernel
  have hreport : ((copyAll ⟨"docs".toList⟩ ⟨"site".toList⟩ [images]).outcome staleSite).1 =
      .ok [⟨⟨"img".toList⟩, 2⟩] := by decide +kernel
  have hstraight : Straight staleSite.disk [] ((⟨"site".toList⟩ : Path).join ⟨images.target⟩) images.replace := by
    decide +kernel
  have hnamed : ((⟨"site".toList⟩ : Path).join ⟨images.target⟩).text ≠ [] := by decide +kernel
  rcases hout : (copyAll ⟨"docs".toList⟩ ⟨"site".toList⟩ [images]).outcome staleSite with ⟨report, w'⟩
  rw [hout] at hreport
  obtain rfl : report = .ok [⟨⟨"img".toList⟩, 2⟩] := hreport
  exact ⟨hplain, hapart, hstraight, w', rfl, (copyAll_effect ⟨"docs".toList⟩ ⟨"site".toList⟩).1 images staleSite w' _
    hplain hapart (fun htext => absurd htext hnamed) hout⟩

/-- Behind a directory that is missing the old images are not seen, so the directory is not replaced: the
old image stays, although the source has none of that name. -/
theorem stale_image_kept :
    staleSite.disk.Plain ∧
    ((⟨"docs".toList⟩ : Path).place []).Apart ((⟨"fresh/../site".toList⟩ : Path).place []) ∧
    images.replace = true ∧
    staleSite.disk.entry? [] ((⟨"docs".toList⟩ : Path).join ⟨images.source⟩) = some .directory ∧
    ((copyAll ⟨"docs".toList⟩ ⟨"fresh/../site".toList⟩ [images]).outcome staleSite).1 =
      .ok [⟨⟨"img".toList⟩, 2⟩] ∧
    staleSite.disk.get? (((⟨"docs".toList⟩ : Path).join ⟨images.source⟩).place [] ++ ["old.png".toList]) =
      none ∧
    ((copyAll ⟨"docs".toList⟩ ⟨"fresh/../site".toList⟩ [images]).outcome staleSite).2.disk.get?
      (((⟨"fresh/../site".toList⟩ : Path).join ⟨images.target⟩).place [] ++ ["old.png".toList]) =
        some (.file (.text "old".toList)) :=
  ⟨plain_of_isTree (by decide +kernel), by decide +kernel, rfl, by decide +kernel, by decide +kernel,
    by decide +kernel, by decide +kernel⟩

end Assets

end CopiedAsset

end DocsMigration
