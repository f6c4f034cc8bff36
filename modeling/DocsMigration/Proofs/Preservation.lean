import DocsMigration.Markdown.Page
import DocsMigration.Proofs.Headers
import DocsMigration.Proofs.Retargeting
/-! Front matter under the rewriters. They run over the whole page, its front matter included, so a
block of front matter survives them exactly if they leave it alone. A rewriter sees behind the block
too, but only for the sign that closes what the block leaves open; and what a rewriter takes from the
block no later one brings back. -/

namespace DocsMigration

namespace Text

theorem normalizeNewlines_cons {c : Char} {s : Text} (h : s.head? ≠ some '\n') :
    normalizeNewlines (c :: s) = c :: normalizeNewlines s := by
  rw [normalizeNewlines]
  rintro t - rfl
  exact h rfl

def withReturns (s : Text) : Text := s.flatMap fun c => if c = '\n' then ['\r', '\n'] else [c]

theorem head?_withReturns (s : Text) : (withReturns s).head? ≠ some '\n' := by
  cases s with
  | nil => simp [withReturns]
  | cons c s => by_cases hc : c = '\n' <;> simp [withReturns, hc]

theorem normalizeNewlines_withReturns (s : Text) : normalizeNewlines (withReturns s) = s := by
  induction s with
  | nil => rfl
  | cons c s ih =>
    by_cases hc : c = '\n'
    · have heq : withReturns (c :: s) = '\r' :: '\n' :: withReturns s := by simp [withReturns, hc]
      rw [heq, normalizeNewlines, ih, hc]
    · have heq : withReturns (c :: s) = c :: withReturns s := by simp [withReturns, hc]
      rw [heq, normalizeNewlines_cons (head?_withReturns s), ih]

end Text

namespace Markdown

namespace Rewriters

def optional (on : Bool) (f : Text → Text) (s : Text) : Text := if on then f s else s

theorem convertBody_eq (r : Rewriters) (t : Text) : r.convertBody t =
    optional r.images Image.convert (optional r.icons Icon.strip (optional r.attributes
      ButtonAttributes.strip (optional r.links Link.convert (optional r.tabs Tabs.convert
        (optional r.admonitions Admonition.convert (Text.normalizeNewlines t)))))) := by
  have hfold (on : Bool) (f : Text → Text) (s : Text) :
      (if on then [f] else []).foldl (fun t rewrite => rewrite t) s = optional on f s := by
    cases on <;> rfl
  unfold convertBody selected
  simp only [List.foldl_append, hfold]

theorem forall_mem_selected {r : Rewriters} {P : (Text → Text) → Prop} : (∀ f ∈ r.selected, P f) ↔
    (r.admonitions → P Admonition.convert) ∧ (r.tabs → P Tabs.convert) ∧ (r.links → P Link.convert) ∧
      (r.attributes → P ButtonAttributes.strip) ∧ (r.icons → P Icon.strip) ∧
        (r.images → P Image.convert) := by
  have hmem (on : Bool) (f : Text → Text) : (∀ g ∈ (if on then [f] else []), P g) ↔ (on → P f) := by
    cases on <;> simp
  unfold selected
  simp only [List.forall_mem_append, hmem, and_assoc]

end Rewriters

namespace FrontMatter

/-- What can close what a block leaves open: nothing at all, a brace, or a quote. Nothing follows a
block that does not end its line. -/
def endings (fm : Text) : List Text :=
  [] :: if fm.getLast? = some '\n' then [['}'], ['"'], ['\'']] else []

/-- A rewriter leaves a block alone, whatever closes what the block leaves open. -/
def LeavesAlone (f : Text → Text) (fm : Text) : Prop := ∀ c ∈ endings fm, f (fm ++ c) = fm ++ c

theorem LeavesAlone.eq_self {f : Text → Text} {fm : Text} (h : LeavesAlone f fm) : f fm = fm := by
  simpa using h [] List.mem_cons_self

theorem mem_endings {fm : Text} (hend : fm.getLast? = some '\n') {x : Char}
    (hx : x = '}' ∨ x = '"' ∨ x = '\'') : [x] ∈ endings fm := by
  rcases hx with rfl | rfl | rfl <;> simp [endings, hend]

theorem cases_of_mem_endings {fm c : Text} (hc : c ∈ endings fm) :
    c = [] ∨ fm.getLast? = some '\n' ∧ ∃ x, c = [x] ∧ (x = '}' ∨ x = '"' ∨ x = '\'') := by
  unfold endings at hc
  split_ifs at hc with hend
  · simp only [List.mem_cons, List.not_mem_nil, or_false] at hc
    rcases hc with rfl | rfl | rfl | rfl <;> simp [hend]
  · exact .inl (List.mem_singleton.1 hc)

theorem length_le_of_mem_endings {fm c : Text} (hc : c ∈ endings fm) : c.length ≤ 1 := by
  rcases cases_of_mem_endings hc with rfl | ⟨-, x, rfl, -⟩ <;> simp

/-- The bodies that a block is asked to bear: nothing follows a block that does not end its line, and
no body starts with an attribute list if those are removed, as a list takes the whitespace before it
along, and with it the line feed of the closing delimiter. -/
def Bears (r : Rewriters) (fm body : Text) : Prop :=
  (body ≠ [] → fm.getLast? = some '\n') ∧ (r.attributes → ¬ ButtonAttributes.leads body)

theorem bears_of_mem_endings (r : Rewriters) {fm c : Text} (hc : c ∈ endings fm) : Bears r fm c := by
  rcases cases_of_mem_endings hc with rfl | ⟨hend, x, rfl, hx⟩
  · exact ⟨by simp, fun _ => by decide⟩
  · refine ⟨fun _ => hend, fun _ => ?_⟩
    rcases hx with rfl | rfl | rfl <;> decide

section Frames

variable {fm b : Text}

/-- A block stays in front of the page, and behind it no attribute list comes to lead. -/
def Stays (f : Text → Text) (fm : Text) : Prop :=
  ∀ b, ∃ b', f (fm ++ b) = fm ++ b' ∧ (ButtonAttributes.leads b' → ButtonAttributes.leads b)

theorem stays_optional {on : Bool} {f : Text → Text} (h : on → Stays f fm) :
    Stays (Rewriters.optional on f) fm := by
  cases on with
  | false => exact fun b => ⟨b, rfl, id⟩
  | true => exact h rfl

theorem stays_admonitions (hend : fm.getLast? = some '\n') (h : LeavesAlone Admonition.convert fm) :
    Stays Admonition.convert fm := fun b =>
  ⟨Admonition.convert b, Admonition.blockPass_convertLines.convert_append hend h.eq_self b,
    Admonition.blockPass_convertLines.leads⟩

theorem stays_tabs (hend : fm.getLast? = some '\n') (h : LeavesAlone Tabs.convert fm) :
    Stays Tabs.convert fm := fun b =>
  ⟨Tabs.convert b, Tabs.blockPass_convertLines.convert_append hend h.eq_self b,
    Tabs.blockPass_convertLines.leads⟩

theorem stays_links (hend : fm.getLast? = some '\n') (h : LeavesAlone Link.convert fm) :
    Stays Link.convert fm := by
  intro b
  obtain ⟨b', hb'⟩ := bracketed_link.replaceAll_append tame_retarget hend h.eq_self b
  refine ⟨b', hb', fun hleads => ?_⟩
  have hlines := (retouched_retargeted bracketed_link tame_retarget (fm ++ b)).fullLines
  rw [hb', Text.fullLines_append (by simp [hend]), Text.fullLines_append (by simp [hend])] at hlines
  have hrest := List.forall₂_drop (Text.fullLines fm).length hlines
  rw [List.drop_left, List.drop_left] at hrest
  exact ButtonAttributes.leads_of_alike hrest hleads

theorem attributes_append (hend : fm.getLast? = some '\n') {y : Text} (hsplit : split fm = ⟨some y, []⟩)
    (h : LeavesAlone ButtonAttributes.strip fm) (hb : ¬ ButtonAttributes.leads b) :
    ButtonAttributes.strip (fm ++ b) = fm ++ ButtonAttributes.strip b := by
  obtain ⟨first, ys, d, hlines, -, hd, -, -⟩ := split_eq_block hsplit
  obtain ⟨ws, rfl, hws⟩ := eq_of_isDelimiter hd
  have hfm : fm = (first ++ ys.flatten ++ "--".toList) ++ '-' :: ws := by
    rw [← Text.flatten_fullLines fm, hlines]
    simp [delimiter]
  have hlast : ws.getLast? = some '\n' := by
    rw [hfm, List.getLast?_append_of_ne_nil _ (by simp)] at hend
    cases ws with
    | nil => simp at hend
    | cons c ws => simpa using hend
  have hfix := h ['}'] (mem_endings hend (.inl rfl))
  rw [hfm] at hfix ⊢
  exact ButtonAttributes.strip_append hws hlast hfix hb

theorem icons_append (hend : fm.getLast? = some '\n') (h : LeavesAlone Icon.strip fm) (b : Text) :
    Icon.strip (fm ++ b) = fm ++ Icon.strip b :=
  Icon.strip_append hend h.eq_self

theorem images_append (hend : fm.getLast? = some '\n') (h : LeavesAlone Image.convert fm) (b : Text) :
    ∃ b', Image.convert (fm ++ b) = fm ++ b' := by
  obtain ⟨b', hb'⟩ := bracketed_image.replaceAll_append tame_normalize hend
    (Image.convert_eq_self h.eq_self).1 b
  have htags : ∀ c ∈ ImageTag.closers b', ImageTag.convert (fm ++ c) = fm ++ c := by
    intro c hc
    refine (Image.convert_eq_self (h c ?_)).2
    rcases ImageTag.mem_closers hc with rfl | ⟨q, rfl, hq, -⟩
    · exact List.mem_cons_self
    · exact mem_endings hend (.inr hq)
  obtain ⟨b'', hb''⟩ := ImageTag.convert_append hend htags
  refine ⟨b'', ?_⟩
  have hinline : Image.convertInline (fm ++ b) = fm ++ b' := hb'
  rw [Image.convert, hinline, hb'']

end Frames

theorem foldl_eq_self {fs : List (Text → Text)} {s : Text} (h : ∀ f ∈ fs, f s = s) :
    fs.foldl (fun t rewrite => rewrite t) s = s := by
  induction fs with
  | nil => rfl
  | cons f fs ih =>
    rw [List.foldl_cons, h f List.mem_cons_self]
    exact ih fun g hg => h g (List.mem_cons_of_mem f hg)

section Blocks

variable {r : Rewriters} {fm y : Text}

/-- A block that every selected rewriter leaves alone is the front matter of the rewritten page. -/
theorem yaml_convertBody (hsplit : split fm = ⟨some y, []⟩) (hsel : ∀ f ∈ r.selected, LeavesAlone f fm)
    {t body : Text} (ht : Text.normalizeNewlines t = fm ++ body) (hbody : Bears r fm body) :
    (split (r.convertBody t)).yaml = some y := by
  by_cases hend : fm.getLast? = some '\n'
  · obtain ⟨hadmonitions, htabs, hlinks, hattributes, hicons, himages⟩ :=
      Rewriters.forall_mem_selected.1 hsel
    obtain ⟨b₁, h₁, hl₁⟩ := stays_optional (fun on => stays_admonitions hend (hadmonitions on)) body
    obtain ⟨b₂, h₂, hl₂⟩ := stays_optional (fun on => stays_tabs hend (htabs on)) b₁
    obtain ⟨b₃, h₃, hl₃⟩ := stays_optional (fun on => stays_links hend (hlinks on)) b₂
    obtain ⟨b₄, h₄⟩ : ∃ b, Rewriters.optional r.attributes ButtonAttributes.strip (fm ++ b₃) =
        fm ++ b := by
      cases hon : r.attributes with
      | false => exact ⟨b₃, rfl⟩
      | true => exact ⟨_, attributes_append hend hsplit (hattributes hon)
          fun h => hbody.2 hon (hl₁ (hl₂ (hl₃ h)))⟩
    obtain ⟨b₅, h₅⟩ : ∃ b, Rewriters.optional r.icons Icon.strip (fm ++ b₄) = fm ++ b := by
      cases hon : r.icons with
      | false => exact ⟨b₄, rfl⟩
      | true => exact ⟨_, icons_append hend (hicons hon) b₄⟩
    obtain ⟨b₆, h₆⟩ : ∃ b, Rewriters.optional r.images Image.convert (fm ++ b₅) = fm ++ b := by
      cases hon : r.images with
      | false => exact ⟨b₅, rfl⟩
      | true => exact images_append hend (himages hon) b₅
    rw [Rewriters.convertBody_eq, ht, h₁, h₂, h₃, h₄, h₅, h₆, split_append hsplit hend]
  · obtain rfl : body = [] := by
      by_contra hne
      exact hend (hbody.1 hne)
    rw [Rewriters.convertBody, ht, List.append_nil, foldl_eq_self fun f hf => (hsel f hf).eq_self,
      hsplit]

theorem fullLines_of_yaml {z : Text} (h : (split z).yaml = some y) :
    ∃ first ys d rest, Text.fullLines z = first :: (ys ++ d :: rest) ∧ y = ys.flatten := by
  have hz : split z = ⟨some y, (split z).body⟩ := by rw [← h]
  obtain ⟨first, ys, d, rest, hlines, -, -, -, hy, -⟩ := split_eq_some.1 hz
  exact ⟨first, ys, d, rest, hlines, hy⟩

theorem infix_of_yaml {z : Text} (h : (split z).yaml = some y) : y <:+: z := by
  obtain ⟨first, ys, d, rest, hlines, rfl⟩ := fullLines_of_yaml h
  rw [← Text.flatten_fullLines z, hlines]
  exact ⟨first, d ++ rest.flatten, by simp⟩

/-- Signs of a kind that stand neither in a delimiter nor behind a block, and that retargeting does not
write. -/
structure Inner (p : Char → Bool) : Prop where
  dash : p '-' = false
  space : ∀ c, Text.isSpace c → ¬ p c
  close : p '}' = false ∧ p '"' = false ∧ p '\'' = false
  slash : p '/' = false
  dot : p '.' = false

theorem inner_isFenceSign : Inner Admonition.isFenceSign := by
  refine ⟨by decide, fun c hs hp => ?_, by decide, by decide, by decide⟩
  simp only [Admonition.isFenceSign, Bool.or_eq_true, beq_iff_eq] at hp
  rcases hp with rfl | rfl <;> exact absurd hs (by decide)

theorem inner_isEquals : Inner Tabs.isEquals := by
  refine ⟨by decide, fun c hs hp => ?_, by decide, by decide, by decide⟩
  obtain rfl := beq_iff_eq.1 hp
  exact absurd hs (by decide)

theorem inner_isEm : Inner isEm := by
  refine ⟨by decide, fun c hs hp => ?_, by decide, by decide, by decide⟩
  obtain rfl := beq_iff_eq.1 hp
  exact absurd hs (by decide)

theorem countP_block {p : Char → Bool} (hp : Inner p) (hsplit : split fm = ⟨some y, []⟩) {c : Text}
    (hc : c ∈ endings fm) : (fm ++ c).countP p = y.countP p := by
  obtain ⟨first, ys, d, hlines, hfirst, hd, -, rfl⟩ := split_eq_block hsplit
  have hdel {l : Text} (hl : isDelimiter l) : l.countP p = 0 := by
    apply Text.countP_eq_zero_of_forall
    intro x hx hx'
    rcases mem_delimiter hl x hx with rfl | hs
    · rw [hp.dash] at hx'
      contradiction
    · exact hp.space x hs hx'
  have hend : c.countP p = 0 := by
    rcases cases_of_mem_endings hc with rfl | ⟨-, x, rfl, hx⟩
    · rfl
    · rcases hx with rfl | rfl | rfl <;> simp [hp.close]
  have hfm : fm = first ++ (ys.flatten ++ d) := by
    rw [← Text.flatten_fullLines fm, hlines]
    simp
  rw [hfm]
  simp only [List.countP_append, hdel hfirst, hdel hd, hend]
  omega

theorem prefix_of_yaml {z first : Text} {rest : List Text} (h : (split z).yaml = some y)
    (hlines : Text.fullLines z = first :: rest) : first ++ y <+: z := by
  obtain ⟨first', ys, d, rest', hlines', rfl⟩ := fullLines_of_yaml h
  obtain ⟨rfl, rfl⟩ := List.cons.inj (hlines.symm.trans hlines')
  rw [← Text.flatten_fullLines z, hlines]
  exact ⟨d ++ rest'.flatten, by simp⟩

/-- Neither the closing delimiter nor what stands behind it has room for a target. -/
theorem ne_target {d c : Text} (hd : isDelimiter d) (hc : c ∈ endings fm) {m : Char}
    (hm : Text.opensTarget m) (e : Text) (q : Char) (u : Text) : d ++ c ≠ e ++ m :: q :: u := by
  intro heq
  have hprefix : d <+: e ++ m :: q :: u := heq ▸ List.prefix_append d c
  obtain ⟨e', rfl⟩ := Text.prefix_of_not_mem hprefix (not_mem_of_isDelimiter hd hm)
  rw [List.append_assoc] at heq
  have hlen := length_le_of_mem_endings hc
  rw [List.append_cancel_left heq] at hlen
  simp at hlen
  omega

/-- Where the text of a block is changed before a target, its YAML is not the same. -/
theorem not_rooted_of_yaml (hsplit : split fm = ⟨some y, []⟩) {c : Text} (hc : c ∈ endings fm) {z : Text}
    (hz : (split z).yaml = some y) : ¬ Rooted (fm ++ c) z := by
  rintro ⟨x, m, q, u, v, hm, hq, hn, rfl⟩
  obtain ⟨first, ys, d, hlines, hfirst, hd, -, rfl⟩ := split_eq_block hsplit
  have hcut : Text.fullLines fm = (first :: ys) ++ [d] := by simpa using hlines
  obtain ⟨-, hlast⟩ := Text.fullLines_flatten hcut
  replace hlast := hlast (by simp) (by simp)
  have hfm : fm = first ++ ys.flatten ++ d := by
    rw [← Text.flatten_fullLines fm, hlines]
    simp
  -- The first line is in front of the change, so it is the first line of both texts.
  have hfront : first ++ ys.flatten <+: x ++ [m] ++ '/' :: v := by
    have hstart : first <+: x ++ m :: q :: u := by
      have hn : first ++ (ys.flatten ++ d ++ c) = x ++ m :: q :: u := by simpa [hfm] using hn
      exact ⟨_, hn⟩
    obtain ⟨x', rfl⟩ := Text.prefix_of_not_mem hstart (not_mem_of_isDelimiter hfirst hm)
    obtain ⟨-, hline, -, hend⟩ := Text.fullLines_eq_cons hlines
    obtain ⟨k, hk, -⟩ := hend (by simp)
    have hsame : Text.fullLines (first ++ x' ++ [m] ++ '/' :: v) =
        first :: Text.fullLines (x' ++ [m] ++ '/' :: v) := by
      rw [List.append_assoc, List.append_assoc, Text.fullLines_append (by simp [hk]), hline,
        ← List.append_assoc]
      rfl
    exact prefix_of_yaml hz hsame
  have hblock : first ++ ys.flatten <+: x ++ [m] ++ q :: u := by
    rw [← hn, hfm]
    exact ⟨d ++ c, by simp⟩
  have hwhole : first ++ ys.flatten ≠ x ++ [m] := by
    intro heq
    rw [List.flatten_cons, heq, List.getLast?_concat] at hlast
    obtain rfl := Option.some.inj hlast
    exact absurd hm (by decide)
  rcases List.prefix_or_prefix_of_prefix hblock (List.prefix_append (x ++ [m]) _) with h | ⟨e, he⟩
  · rcases List.prefix_concat_iff.1 h with h | ⟨e, rfl⟩
    · exact hwhole h
    · -- The change is behind the YAML.
      apply ne_target hd hc hm e q u
      rw [hfm] at hn
      simpa only [List.append_assoc, List.append_cancel_left_eq, List.singleton_append] using hn
  · cases e with
    | nil => exact hwhole (by simpa using he.symm)
    | cons a e =>
      rw [← he, List.prefix_append_right_inj] at hblock hfront
      exact hq ((List.cons_prefix_cons.1 hblock).1.symm.trans (List.cons_prefix_cons.1 hfront).1)

section Losses

variable {p : Char → Bool} {f : Text → Text}

theorem countP_optional_le (h : ∀ s, (f s).countP p ≤ s.countP p) (on : Bool) (s : Text) :
    (Rewriters.optional on f s).countP p ≤ s.countP p := by
  cases on with
  | false => exact le_rfl
  | true => exact h s

/-- A rewriter that loses signs whenever it changes something has changed nothing if none is lost. -/
theorem optional_eq_self {s : Text} (on : Bool) (h : f s = s ∨ (f s).countP p < s.countP p)
    (hle : s.countP p ≤ (Rewriters.optional on f s).countP p) :
    Rewriters.optional on f s = s ∧ (on → f s = s) := by
  cases on with
  | false => exact ⟨rfl, by simp⟩
  | true =>
    have hf : f s = s := h.resolve_right (Nat.not_lt.2 hle)
    exact ⟨hf, fun _ => hf⟩

end Losses

/-- What a rewriter takes from a block no later one brings back: if the rewritten page has the YAML of
the block, every selected rewriter has left the page as it was. -/
theorem selected_eq_self (hsplit : split fm = ⟨some y, []⟩) {c : Text} (hc : c ∈ endings fm) {t : Text}
    (ht : Text.normalizeNewlines t = fm ++ c) (hz : (split (r.convertBody t)).yaml = some y) :
    ∀ f ∈ r.selected, f (fm ++ c) = fm ++ c := by
  rw [Rewriters.convertBody_eq, ht] at hz
  have hrooted := not_rooted_of_yaml hsplit hc hz
  have hcount {p : Char → Bool} (hp : Inner p) :=
    (countP_block hp hsplit hc).le.trans (infix_of_yaml hz).sublist.countP_le
  generalize fm ++ c = n at hz hrooted hcount ⊢
  have himages {p : Char → Bool} (hp : Inner p) :=
    countP_optional_le (fun s => Image.countP_convert_le hp.slash hp.dot s) r.images
  have hicons (p : Char → Bool) :=
    countP_optional_le (fun s => Icon.countP_strip_le (p := p) s) r.icons
  have hattributes (p : Char → Bool) :=
    countP_optional_le (fun s => ButtonAttributes.countP_strip_le p s) r.attributes
  have hlinks {p : Char → Bool} (hp : Inner p) :=
    countP_optional_le (fun s => Link.countP_convert_le hp.slash hp.dot s) r.links
  have htabs := countP_optional_le (fun s => Tabs.countP_convert_le (p := Admonition.isFenceSign)
    (by unfold Tabs.Unwritten; decide) (by decide) s) r.tabs
  obtain ⟨h₁, hadmonition⟩ := optional_eq_self r.admonitions
    (Admonition.blockPass_convertLines.eq_or_countP_lt n) ((hcount inner_isFenceSign).trans
      ((himages inner_isFenceSign _).trans ((hicons _ _).trans ((hattributes _ _).trans
        ((hlinks inner_isFenceSign _).trans (htabs _))))))
  change Rewriters.optional r.admonitions Admonition.convert n = n at h₁
  simp only [h₁] at hcount hrooted
  obtain ⟨h₂, htab⟩ := optional_eq_self r.tabs
    (Tabs.blockPass_convertLines.eq_or_countP_lt n) ((hcount inner_isEquals).trans
      ((himages inner_isEquals _).trans ((hicons _ _).trans ((hattributes _ _).trans
        (hlinks inner_isEquals _)))))
  change Rewriters.optional r.tabs Tabs.convert n = n at h₂
  simp only [h₂] at hcount hrooted
  obtain ⟨h₃, hlink⟩ := optional_eq_self r.links (Link.convert_eq_or_countP_lt n)
    ((hcount inner_isEm).trans ((himages inner_isEm _).trans ((hicons _ _).trans (hattributes _ _))))
  simp only [h₃] at hcount hrooted
  obtain ⟨h₄, hattribute⟩ := optional_eq_self r.attributes
    (ButtonAttributes.strip_eq_or_countP_lt n)
    ((hcount inner_isEm).trans ((himages inner_isEm _).trans (hicons _ _)))
  simp only [h₄] at hcount hrooted
  obtain ⟨h₅, hicon⟩ := optional_eq_self r.icons (Icon.strip_eq_or_countP_lt n)
    ((hcount inner_isEm).trans (himages inner_isEm _))
  simp only [h₅] at hrooted
  refine Rewriters.forall_mem_selected.2 ⟨hadmonition, htab, hlink, hattribute, hicon, fun on => ?_⟩
  apply (Image.rooted_convert n).resolve_right
  rwa [on] at hrooted

end Blocks

theorem isSome_split_retouched {s t : Text} (h : Text.Retouched s t) :
    (split t).yaml.isSome ↔ (split s).yaml.isSome :=
  (isSome_split_of_alike h.fullLines).symm

/-- Retargeting neither makes front matter nor takes it away. -/
theorem isSome_split_retargeted (r : Rewriters) (s : Text) :
    (split (Rewriters.optional r.images Image.convert (Rewriters.optional r.links Link.convert s))).yaml.isSome ↔
      (split s).yaml.isSome := by
  have hlinks : (split (Rewriters.optional r.links Link.convert s)).yaml.isSome ↔
      (split s).yaml.isSome := by
    cases r.links with
    | false => rfl
    | true => exact isSome_split_retouched (retouched_retargeted bracketed_link tame_retarget s)
  refine Iff.trans ?_ hlinks
  generalize Rewriters.optional r.links Link.convert s = t
  cases r.images with
  | false => rfl
  | true =>
    exact (isSome_split_retouched (retouched_imageTag _)).trans
      (isSome_split_retouched (retouched_retargeted bracketed_image tame_normalize t))

/-- The removed lines and the removed annotations of a page can leave a delimiter behind. -/
theorem makes_frontMatter (r : Rewriters)
    (h : r.admonitions ∨ r.tabs ∨ r.attributes ∨ r.icons) : ∃ t,
      (split (Text.normalizeNewlines t)).yaml = none ∧ (split (r.convertBody t)).yaml ≠ none := by
  obtain ⟨admonitions, tabs, links, attributes, icons, images⟩ := r
  dsimp only at h
  rcases h with rfl | rfl | rfl | rfl
  · refine ⟨"---\n!!! note\n    ---\n".toList, by decide +kernel, ?_⟩
    revert tabs links attributes icons images
    decide +kernel
  · refine ⟨"---\n=== \"a\"\n    ---\n".toList, by decide +kernel, ?_⟩
    revert admonitions links attributes icons images
    decide +kernel
  · refine ⟨"{.md-button}---\nx\n---\n".toList, by decide +kernel, ?_⟩
    revert admonitions tabs links icons images
    decide +kernel
  · refine ⟨":material-home:---\nx\n---\n".toList, by decide +kernel, ?_⟩
    revert admonitions tabs links attributes images
    decide +kernel

/-- A list in front of the body takes the closing delimiter's line feed away. -/
theorem list_damages_delimiter (r : Rewriters) (h : r.attributes) : ∃ fm body t y,
    Text.normalizeNewlines t = fm ++ body ∧ split fm = ⟨some y, []⟩ ∧ fm.getLast? = some '\n' ∧
      (∀ f ∈ r.selected, LeavesAlone f fm) ∧ (split (r.convertBody t)).yaml = none := by
  obtain ⟨admonitions, tabs, links, attributes, icons, images⟩ := r
  obtain rfl : attributes = true := h
  refine ⟨"---\n---\n".toList, "{.md-button}x".toList, "---\n---\n{.md-button}x".toList, [],
    by decide, by decide, by decide, ?_, ?_⟩
  · rw [Rewriters.forall_mem_selected]
    unfold LeavesAlone
    refine ⟨fun _ => ?_, fun _ => ?_, fun _ => ?_, fun _ => ?_, fun _ => ?_, fun _ => ?_⟩ <;>
      decide +kernel
  · revert admonitions tabs links icons images
    decide +kernel

/-- When the rewriters keep front matter. A page with front matter is a block in front of a body, and
the YAML of the block is kept in front of all bodies that it is asked to bear exactly if every selected
rewriter leaves the block alone; a removed list in front of the body can damage any block. A page
without front matter is given none exactly if only targets are rewritten. -/
theorem rewriters_keep_iff (r : Rewriters) :
    (∀ s y b, split s = ⟨some y, b⟩ → ∃ fm, s = fm ++ b ∧ (b ≠ [] → fm.getLast? = some '\n') ∧
      ((∀ t body, Text.normalizeNewlines t = fm ++ body → Bears r fm body →
          (split (r.convertBody t)).yaml = some y) ↔ ∀ f ∈ r.selected, LeavesAlone f fm)) ∧
    (r.attributes → ∃ fm body t y, Text.normalizeNewlines t = fm ++ body ∧ split fm = ⟨some y, []⟩ ∧
      fm.getLast? = some '\n' ∧ (∀ f ∈ r.selected, LeavesAlone f fm) ∧
        (split (r.convertBody t)).yaml = none) ∧
    ((∀ t, (split (Text.normalizeNewlines t)).yaml = none → (split (r.convertBody t)).yaml = none) ↔
      ¬ r.admonitions ∧ ¬ r.tabs ∧ ¬ r.attributes ∧ ¬ r.icons) := by
  refine ⟨fun s y b hs => ?_, list_damages_delimiter r, fun h => ?_, fun h t ht => ?_⟩
  · obtain ⟨fm, heq, hsplit, hend⟩ := exists_block hs
    refine ⟨fm, heq, hend, fun hkeeps f hf c hc => ?_, fun hsel t body ht hbody =>
      yaml_convertBody hsplit hsel ht hbody⟩
    have ht := Text.normalizeNewlines_withReturns (fm ++ c)
    exact selected_eq_self hsplit hc ht (hkeeps _ c ht (bears_of_mem_endings r hc)) f hf
  · by_contra hsel
    obtain ⟨t, hnone, hsome⟩ := makes_frontMatter r (by tauto)
    exact hsome (h t hnone)
  · obtain ⟨hadmonitions, htabs, hattributes, hicons⟩ := h
    rw [Rewriters.convertBody_eq]
    simp only [Bool.not_eq_true] at hadmonitions htabs hattributes hicons
    rw [hadmonitions, htabs, hattributes, hicons]
    have hiff := isSome_split_retargeted r (Text.normalizeNewlines t)
    rw [ht] at hiff
    have hnone : (split (Rewriters.optional r.images Image.convert
        (Rewriters.optional r.links Link.convert (Text.normalizeNewlines t)))).yaml = none := by
      simpa using hiff
    exact hnone

/-- A callout behind a block that no rewriter changes: the block is kept, also with a link in the body. -/
theorem title_kept_before_callout :
    (∀ f ∈ Rewriters.selected {}, LeavesAlone f "---\ntitle: A\n---\n".toList) ∧
      (split (Rewriters.convertBody {}
        "---\ntitle: A\n---\n!!! tip\n    [b](b.md)\n".toList)).yaml = some "title: A\n".toList := by
  have hsel : ∀ f ∈ Rewriters.selected {}, LeavesAlone f "---\ntitle: A\n---\n".toList := by
    rw [Rewriters.forall_mem_selected]
    unfold LeavesAlone
    refine ⟨fun _ => ?_, fun _ => ?_, fun _ => ?_, fun _ => ?_, fun _ => ?_, fun _ => ?_⟩ <;>
      decide +kernel
  obtain ⟨fm, hfm, -, hiff⟩ := (rewriters_keep_iff {}).1
    "---\ntitle: A\n---\n!!! tip\n    [b](b.md)\n".toList "title: A\n".toList
    "!!! tip\n    [b](b.md)\n".toList (by decide +kernel)
  obtain rfl : fm = "---\ntitle: A\n---\n".toList := by
    refine List.append_cancel_right (hfm.symm.trans ?_)
    decide +kernel
  refine ⟨hsel, hiff.2 hsel _ "!!! tip\n    [b](b.md)\n".toList (by decide +kernel) ⟨fun _ => ?_, fun _ => ?_⟩⟩ <;>
    decide +kernel

/-- A quoted link in the metadata of a page is retargeted like any other. -/
theorem metadata_link_retargeted :
    (split (Rewriters.convertBody {} "---\nsee: \"[setup](setup.md)\"\n---\nBody\n".toList)).yaml ≠
      (split (Text.normalizeNewlines "---\nsee: \"[setup](setup.md)\"\n---\nBody\n".toList)).yaml := by
  decide +kernel

end FrontMatter

end Markdown

end DocsMigration
