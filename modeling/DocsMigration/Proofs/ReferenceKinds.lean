import DocsMigration.Proofs.Targets
/-! Rewriting keeps the kind of a reference. What a link is retargeted to names no other site, and it is
rooted exactly if the link was, except for the index page of the root, which becomes the current
directory. What an image path is normalized to is rooted; it stays on the site, unless a second slash
follows the steps to parent directories that are dropped. -/

namespace DocsMigration

namespace Markdown

namespace Url

variable {s x r : Text}

theorem hasScheme_iff : hasScheme s ↔ ∃ c name rest, s = c :: name ++ ':' :: rest ∧ ':' ∉ c :: name ∧
    c.isAlpha ∧ ∀ d ∈ name, isSchemeChar d := by
  constructor
  · intro h
    unfold hasScheme at h
    split at h
    · rename_i c name rest hsplit
      obtain ⟨hs, hcolon⟩ := Text.splitOnce?_eq_some.1 hsplit
      rw [Bool.and_eq_true, List.all_eq_true] at h
      exact ⟨c, name, rest, hs, hcolon, h⟩
    · contradiction
  · rintro ⟨c, name, rest, hs, hcolon, hc, hname⟩
    rw [hasScheme, Text.splitOnce?_eq_some.2 ⟨hs, hcolon⟩]
    simp only [hc, Bool.true_and, List.all_eq_true]
    exact hname

theorem hasScheme_append_of_slash (h : hasScheme (x ++ '/' :: r)) (y : Text) : hasScheme (x ++ y) := by
  obtain ⟨c, name, rest, hs, hcolon, hc, hname⟩ := hasScheme_iff.1 h
  have hslash : '/' ∉ c :: name ++ [':'] := by
    intro hm
    rcases List.mem_append.1 hm with hm | hm
    · rcases List.mem_cons.1 hm with heq | hm
      · rw [← heq] at hc
        exact absurd hc (by decide)
      · exact absurd (hname _ hm) (by decide)
    · exact absurd hm (by decide)
  have hstart : c :: name ++ [':'] <+: x ++ '/' :: r := ⟨rest, by rw [hs]; simp⟩
  obtain ⟨t, rfl⟩ := Text.prefix_of_not_mem hstart hslash
  exact hasScheme_iff.2 ⟨c, name, t ++ y, by simp, hcolon, hc, hname⟩

theorem not_hasScheme_rooted (s : Text) : hasScheme ('/' :: s) = false := by
  rw [Bool.eq_false_iff]
  intro h
  obtain ⟨c, name, rest, hs, -, hc, -⟩ := hasScheme_iff.1 h
  rw [← (List.cons.inj hs).1] at hc
  exact absurd hc (by decide)

end Url

namespace Link

def directoryUrl (stem : Text) : Text :=
  if stem = "index".toList then "../".toList
  else match Text.stripSuffix? "/index".toList stem with
    | some [] => "./".toList
    | some dir => dir ++ ['/']
    | none => stem ++ ['/']

theorem retarget_eq (url : Text) : retarget url =
    if Text.startsWith url ['#'] || Url.isExternal url then none
    else (Text.stripSuffix? ".md".toList url).map directoryUrl := by
  unfold retarget
  split_ifs
  · rfl
  · cases Text.stripSuffix? ".md".toList url with
    | none => rfl
    | some stem =>
      rw [Option.map_some, directoryUrl]
      dsimp only
      split_ifs
      · rfl
      · cases Text.stripSuffix? "/index".toList stem with
        | none => rfl
        | some dir => cases dir <;> rfl

theorem retarget_eq_some_iff {url v : Text} : retarget url = some v ↔
    Text.startsWith url ['#'] = false ∧ Url.isExternal url = false ∧
      ∃ stem, url = stem ++ ".md".toList ∧ v = directoryUrl stem := by
  rw [retarget_eq]
  split_ifs with h
  · refine iff_of_false (by simp) ?_
    rintro ⟨hfragment, hexternal, -⟩
    simp [hfragment, hexternal] at h
  · obtain ⟨hfragment, hexternal⟩ := Bool.or_eq_false_iff.1 (Bool.eq_false_iff.2 h)
    simp only [hfragment, hexternal, true_and, Option.map_eq_some_iff, Text.stripSuffix?_eq_some]
    constructor
    · rintro ⟨stem, hurl, hv⟩
      exact ⟨stem, hurl.symm, hv.symm⟩
    · rintro ⟨stem, hurl, hv⟩
      exact ⟨stem, hurl.symm, hv.symm⟩

/-- What a directory URL is: one of the two for index pages at the end of nothing, or a directory, which is
empty only for the file that has no name. -/
theorem directoryUrl_cases (stem : Text) :
    stem = "index".toList ∧ directoryUrl stem = "../".toList ∨
    stem = "/index".toList ∧ directoryUrl stem = "./".toList ∨
    ∃ dir, directoryUrl stem = dir ++ ['/'] ∧
      (dir ≠ [] ∧ stem = dir ++ "/index".toList ∨ dir = stem ∧ ¬ "/index".toList <:+ stem) := by
  unfold directoryUrl
  split_ifs with hbare
  · exact .inl ⟨hbare, rfl⟩
  · cases hdir : Text.stripSuffix? "/index".toList stem with
    | none =>
      refine .inr (.inr ⟨stem, rfl, .inr ⟨rfl, ?_⟩⟩)
      rintro ⟨dir, h⟩
      rw [Text.stripSuffix?_eq_some.2 h] at hdir
      contradiction
    | some dir =>
      have hstem := Text.stripSuffix?_eq_some.1 hdir
      cases dir with
      | nil => exact .inr (.inl ⟨hstem.symm, rfl⟩)
      | cons c dir => exact .inr (.inr ⟨c :: dir, rfl, .inl ⟨by simp, hstem.symm⟩⟩)

end Link

section Kinds

variable {u v : Text}

theorem startsWith_slash : Text.startsWith u ['/'] ↔ u.head? = some '/' := by
  cases u with
  | nil => simp [Text.startsWith]
  | cons c s => simp [Text.startsWith, @eq_comm Char c]

theorem startsWith_slashes : Text.startsWith u "//".toList ↔ ∃ s, u = '/' :: '/' :: s := by
  rw [Text.startsWith, List.isPrefixOf_iff_prefix]
  constructor
  · rintro ⟨s, rfl⟩
    exact ⟨s, rfl⟩
  · rintro ⟨s, rfl⟩
    exact ⟨s, rfl⟩

theorem hasScheme_retarget (h : Link.retarget u = some v) : Url.hasScheme v = false := by
  obtain ⟨-, hlocal, stem, rfl, rfl⟩ := Link.retarget_eq_some_iff.1 h
  have hno : Url.hasScheme (stem ++ ".md".toList) = false := (Bool.or_eq_false_iff.1 hlocal).2
  rcases Link.directoryUrl_cases stem with ⟨-, hv⟩ | ⟨-, hv⟩ | ⟨dir, hv, hdir⟩
  · rw [hv]
    decide
  · rw [hv]
    decide
  · rw [hv, Bool.eq_false_iff]
    intro hscheme
    rw [Bool.eq_false_iff] at hno
    apply hno
    rcases hdir with ⟨-, rfl⟩ | ⟨rfl, -⟩
    · rw [List.append_assoc]
      exact Url.hasScheme_append_of_slash hscheme _
    · exact Url.hasScheme_append_of_slash hscheme _

theorem not_slashes_retarget (h : Link.retarget u = some v) (hroot : u ≠ "/.md".toList) :
    ¬ Text.startsWith v "//".toList := by
  obtain ⟨-, hlocal, stem, rfl, rfl⟩ := Link.retarget_eq_some_iff.1 h
  rcases Link.directoryUrl_cases stem with ⟨-, hv⟩ | ⟨-, hv⟩ | ⟨dir, hv, hdir⟩
  · rw [hv]
    decide
  · rw [hv]
    decide
  · intro hslashes
    rw [hv] at hslashes
    obtain ⟨t, ht⟩ := startsWith_slashes.1 hslashes
    have hhost : ¬ Text.startsWith (stem ++ ".md".toList) "//".toList := by
      rw [(Bool.or_eq_false_iff.1 hlocal).1]
      exact Bool.false_ne_true
    apply hhost
    -- the two slashes stand in the link too, the second one perhaps in front of the index page
    match dir, ht with
    | [], ht => exact absurd (congrArg List.length ht) (by simp)
    | [c], ht =>
      obtain rfl : c = '/' := (List.cons.inj ht).1
      rcases hdir with ⟨-, rfl⟩ | ⟨rfl, -⟩
      · decide
      · exact absurd rfl hroot
    | c :: d :: dir, ht =>
      obtain ⟨rfl, hrest⟩ := List.cons.inj ht
      obtain rfl : d = '/' := (List.cons.inj hrest).1
      rcases hdir with ⟨-, rfl⟩ | ⟨rfl, -⟩ <;> exact startsWith_slashes.2 ⟨_, rfl⟩

theorem rooted_retarget_iff (h : Link.retarget u = some v) (hname : u ≠ ".md".toList) :
    Text.startsWith v ['/'] ↔ Text.startsWith u ['/'] ∧ u ≠ "/index.md".toList := by
  obtain ⟨-, -, stem, rfl, rfl⟩ := Link.retarget_eq_some_iff.1 h
  rcases Link.directoryUrl_cases stem with ⟨rfl, hv⟩ | ⟨rfl, hv⟩ | ⟨dir, hv, hdir⟩
  · rw [hv]
    decide
  · rw [hv]
    decide
  · have hindex : stem ++ ".md".toList ≠ "/index.md".toList := by
      intro heq
      have hsame : stem ++ ".md".toList = "/index".toList ++ ".md".toList := heq
      obtain rfl := List.append_cancel_right hsame
      rcases hdir with ⟨hne, hstem⟩ | ⟨-, hno⟩
      · exact hne (List.append_left_eq_self.1 hstem.symm)
      · exact hno List.suffix_rfl
    have hne : dir ≠ [] := by
      rintro rfl
      rcases hdir with ⟨hne, -⟩ | ⟨rfl, -⟩
      · exact hne rfl
      · exact hname rfl
    obtain ⟨c, s, rfl⟩ := List.exists_cons_of_ne_nil hne
    have hhead : (stem ++ ".md".toList).head? = some c := by
      rcases hdir with ⟨-, rfl⟩ | ⟨rfl, -⟩ <;> rfl
    rw [hv, startsWith_slash, startsWith_slash, hhead]
    exact (and_iff_left hindex).symm

/-- Rewriting keeps the kind of a reference. A retargeted link has no scheme. It does not name a host, unless
the link leads to the file at the root that has no name. It is rooted exactly if the link is, which does not
go for the index page of the root, nor for the file beside the page that has no name. A normalized image
path is rooted and has no scheme; unless a slash follows the steps that are dropped, it has one slash in
front and stays on the site. -/
theorem rewriting_keeps_kind (u : Text) :
    (∀ v, Link.retarget u = some v → Url.hasScheme v = false ∧
      (u ≠ "/.md".toList → ¬ Text.startsWith v "//".toList) ∧
      (u ≠ ".md".toList →
        (Text.startsWith v ['/'] ↔ Text.startsWith u ['/'] ∧ u ≠ "/index.md".toList))) ∧
    ∀ v, Image.normalize u = some v → Text.startsWith v ['/'] ∧ Url.hasScheme v = false ∧
      (¬ Text.startsWith (Image.dropParents u) ['/'] →
        ¬ Text.startsWith v "//".toList ∧ Url.isExternal v = false) := by
  refine ⟨fun v hv => ⟨hasScheme_retarget hv, not_slashes_retarget hv, rooted_retarget_iff hv⟩,
    fun v hv => ?_⟩
  obtain ⟨-, rfl⟩ := normalize_eq_some hv
  have hscheme := Url.not_hasScheme_rooted (Image.dropParents u)
  refine ⟨startsWith_slash.2 rfl, hscheme, fun hone => ?_⟩
  have hhost : ¬ Text.startsWith ('/' :: Image.dropParents u) "//".toList := by
    intro hslashes
    obtain ⟨s, hs⟩ := startsWith_slashes.1 hslashes
    apply hone
    rw [(List.cons.inj hs).2]
    exact startsWith_slash.2 rfl
  refine ⟨hhost, ?_⟩
  rw [Url.isExternal, hscheme, Bool.or_false, Bool.eq_false_iff]
  exact hhost

/-- A link to an index page in a directory, and an image two directories up. -/
theorem kind_kept_of_ordinary_references :
    Link.retarget "/lab/index.md".toList = some "/lab/".toList ∧
    ¬ Text.startsWith "/lab/".toList "//".toList ∧ Text.startsWith "/lab/".toList ['/'] ∧
    Image.normalize "../../assets/a.png".toList = some "/assets/a.png".toList ∧
    Url.isExternal "/assets/a.png".toList = false := by
  have hlink : Link.retarget "/lab/index.md".toList = some "/lab/".toList := by decide
  have himage : Image.normalize "../../assets/a.png".toList = some "/assets/a.png".toList := by decide
  have hkept := (rewriting_keeps_kind "/lab/index.md".toList).1 _ hlink
  have hrooted := (rewriting_keeps_kind "../../assets/a.png".toList).2 _ himage
  have hslash := (hkept.2.2 (by decide)).2 ⟨by decide, by decide⟩
  exact ⟨hlink, hkept.2.1 (by decide), hslash, himage, (hrooted.2.2 (by decide)).2⟩

/-- The index page of the root becomes the current directory: a rooted link turns into a relative one. -/
theorem rooted_index_becomes_relative :
    Link.retarget "/index.md".toList = some "./".toList ∧
    Text.startsWith "/index.md".toList ['/'] = true ∧ Text.startsWith "./".toList ['/'] = false := by
  decide

end Kinds

end Markdown

end DocsMigration
