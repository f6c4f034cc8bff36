import DocsMigration.Proofs.Blocks
import DocsMigration.Proofs.LowerCase
import Mathlib.Data.List.TakeWhile
/-! The grammar of an admonition's header line: a fence, whitespace, a word, perhaps whitespace and a
title in quotes, and whitespace to the end. A header is read exactly from the lines of this form, and no
line has the form in two ways, since each run of whitespace and the word end where they cannot go on. -/

namespace DocsMigration

namespace Text

variable {p : Char → Bool} {a b a' b' s : Text}

theorem takeWhile_run (ha : ∀ c ∈ a, p c) (hb : ∀ c ∈ b.head?, ¬ p c) : (a ++ b).takeWhile p = a := by
  rw [List.takeWhile_append_of_pos ha]
  cases b with
  | nil => exact List.append_nil a
  | cons c b => rw [List.takeWhile_cons_of_neg (hb c rfl), List.append_nil]

theorem dropWhile_run (ha : ∀ c ∈ a, p c) (hb : ∀ c ∈ b.head?, ¬ p c) : (a ++ b).dropWhile p = b := by
  rw [List.dropWhile_append_of_pos ha]
  cases b with
  | nil => rfl
  | cons c b => rw [List.dropWhile_cons_of_neg (hb c rfl)]

theorem run_unique (h : a ++ b = a' ++ b') (ha : ∀ c ∈ a, p c) (hb : ∀ c ∈ b.head?, ¬ p c)
    (ha' : ∀ c ∈ a', p c) (hb' : ∀ c ∈ b'.head?, ¬ p c) : a = a' ∧ b = b' := by
  have htake := congrArg (List.takeWhile p) h
  have hdrop := congrArg (List.dropWhile p) h
  rw [takeWhile_run ha hb, takeWhile_run ha' hb'] at htake
  rw [dropWhile_run ha hb, dropWhile_run ha' hb'] at hdrop
  exact ⟨htake, hdrop⟩

theorem not_isWord_of_isSpace {c : Char} (h : isSpace c) : ¬ isWord c := by
  have hcodes : ∀ n ∈ [9, 10, 11, 12, 13, 32, 0x85, 0xA0, 0x1680, 0x2000, 0x2001, 0x2002, 0x2003, 0x2004,
      0x2005, 0x2006, 0x2007, 0x2008, 0x2009, 0x200A, 0x2028, 0x2029, 0x202F, 0x205F, 0x3000],
      ¬ isWord (Char.ofNat n) := by decide +kernel
  have hc := hcodes c.toNat (by
    simp only [isSpace, Bool.or_eq_true, Bool.and_eq_true, decide_eq_true_eq, beq_iff_eq] at h
    simp only [List.mem_cons, List.not_mem_nil, or_false]
    omega)
  rwa [Char.ofNat_toNat] at hc

end Text

namespace Markdown

structure QuotedTitle where
  gap : Text
  title : Text
  gap_ne_nil : gap ≠ []
  isSpace_gap : ∀ c ∈ gap, Text.isSpace c
  unquoted : '"' ∉ title

structure HeaderForm where
  fence : Fence
  gap : Text
  word : Text
  quoted : Option QuotedTitle
  ending : Text
  gap_ne_nil : gap ≠ []
  isSpace_gap : ∀ c ∈ gap, Text.isSpace c
  word_ne_nil : word ≠ []
  isWord_word : ∀ c ∈ word, Text.isWord c
  isSpace_ending : ∀ c ∈ ending, Text.isSpace c

namespace QuotedTitle

def text (q : QuotedTitle) : Text := q.gap ++ '"' :: (q.title ++ ['"'])

def optionText : Option QuotedTitle → Text
  | none => []
  | some q => q.text

end QuotedTitle

namespace HeaderForm

def text (f : HeaderForm) : Text :=
  f.fence.mark ++ (f.gap ++ (f.word ++ (QuotedTitle.optionText f.quoted ++ f.ending)))

/-- The header with these parts: the word in lower case, and the title unless it is empty. -/
def header (f : HeaderForm) : AdmonitionHeader :=
  ⟨f.fence, Text.toLower f.word, (f.quoted.map (·.title)).filter (!·.isEmpty)⟩

end HeaderForm

section Parts

variable {o o' : Option QuotedTitle} {ending ending' rest t : Text} {q : QuotedTitle}

theorem not_isSpace_quote : ¬ Text.isSpace '"' := by decide

theorem nonempty_title (o : Option QuotedTitle) :
    (if ((o.map (·.title)).getD []).isEmpty then none else some ((o.map (·.title)).getD [])) =
      (o.map (·.title)).filter (!·.isEmpty) := by
  cases o with
  | none => rfl
  | some q => cases h : q.title.isEmpty <;> simp [h, Option.filter]

theorem isSpace_head_append {gap : Text} (hne : gap ≠ []) (hgap : ∀ c ∈ gap, Text.isSpace c) (s : Text) :
    (gap ++ s).head?.any Text.isSpace := by
  obtain ⟨c, gap, rfl⟩ := List.exists_cons_of_ne_nil hne
  exact hgap c List.mem_cons_self

theorem isSpace_of_mem_head? (hending : ∀ c ∈ ending, Text.isSpace c) :
    ∀ c ∈ (QuotedTitle.optionText o ++ ending).head?, Text.isSpace c := by
  intro c hc
  cases o with
  | none => exact hending c (List.mem_of_mem_head? hc)
  | some q =>
    obtain ⟨d, gap, hgap⟩ := List.exists_cons_of_ne_nil q.gap_ne_nil
    rw [QuotedTitle.optionText, QuotedTitle.text, hgap] at hc
    obtain rfl := Option.some.inj hc
    exact q.isSpace_gap d (hgap ▸ List.mem_cons_self)

theorem optionText_unique (h : QuotedTitle.optionText o ++ ending = QuotedTitle.optionText o' ++ ending')
    (hending : ∀ c ∈ ending, Text.isSpace c) (hending' : ∀ c ∈ ending', Text.isSpace c) :
    o = o' ∧ ending = ending' := by
  -- a quotation mark is no whitespace, so no ending holds one
  have hno {q : QuotedTitle} {ending ending' : Text} (hending' : ∀ c ∈ ending', Text.isSpace c) :
      QuotedTitle.optionText (some q) ++ ending ≠ ending' := by
    rintro rfl
    have hquote : '"' ∈ QuotedTitle.optionText (some q) ++ ending := by
      simp [QuotedTitle.optionText, QuotedTitle.text]
    exact not_isSpace_quote (hending' _ hquote)
  cases o with
  | none =>
    cases o' with
    | none => exact ⟨rfl, h⟩
    | some q' => exact absurd h.symm (hno hending)
  | some q =>
    cases o' with
    | none => exact absurd h (hno hending')
    | some q' =>
      simp only [QuotedTitle.optionText, QuotedTitle.text, List.append_assoc, List.cons_append,
        List.nil_append] at h
      have hquote : ∀ s : Text, ∀ c ∈ ('"' :: s).head?, ¬ Text.isSpace c := by
        rintro s c hc
        obtain rfl := Option.some.inj hc
        exact not_isSpace_quote
      obtain ⟨hgap, h⟩ := Text.run_unique h q.isSpace_gap (hquote _) q'.isSpace_gap (hquote _)
      obtain ⟨htitle, hrest⟩ := Text.run_unique (List.cons.inj h).2 (Text.bne_of_not_mem q.unquoted)
        (by simp) (Text.bne_of_not_mem q'.unquoted) (by simp)
      refine ⟨?_, (List.cons.inj hrest).2⟩
      cases q
      cases q'
      simp_all

theorem titleText?_optionText (hending : ∀ c ∈ ending, Text.isSpace c) :
    AdmonitionHeader.titleText? (QuotedTitle.optionText o ++ ending) =
      some ((o.map (·.title)).getD []) := by
  unfold AdmonitionHeader.titleText?
  cases o with
  | none =>
    have htrim : Text.trimStart (QuotedTitle.optionText none ++ ending) = [] :=
      List.dropWhile_eq_nil_iff.2 hending
    rw [htrim]
    rfl
  | some q =>
    have htrim : Text.trimStart (QuotedTitle.optionText (some q) ++ ending) =
        '"' :: (q.title ++ '"' :: ending) := by
      simp only [QuotedTitle.optionText, QuotedTitle.text, List.append_assoc, List.cons_append,
        List.nil_append]
      exact Text.trimStart_blank_append q.isSpace_gap not_isSpace_quote _
    have hhead : (QuotedTitle.optionText (some q) ++ ending).head?.any Text.isSpace := by
      rw [QuotedTitle.optionText, QuotedTitle.text, List.append_assoc]
      exact isSpace_head_append q.gap_ne_nil q.isSpace_gap _
    have hsplit : Text.splitOnce? '"' (q.title ++ '"' :: ending) = some (q.title, ending) :=
      Text.splitOnce?_eq_some.2 ⟨rfl, q.unquoted⟩
    have hblank : Text.isBlank ending := List.all_eq_true.2 hending
    simp only [htrim, hhead, hsplit, hblank, and_self, if_true, Option.map_some, Option.getD_some]

theorem exists_of_titleText? (h : AdmonitionHeader.titleText? rest = some t) :
    ∃ o ending, rest = QuotedTitle.optionText o ++ ending ∧ (∀ c ∈ ending, Text.isSpace c) ∧
      t = (o.map (·.title)).getD [] := by
  obtain ⟨gap, hrest, hgap⟩ := Text.trimStart_spec rest
  unfold AdmonitionHeader.titleText? at h
  split at h
  · rename_i htrim
    rw [htrim, List.append_nil] at hrest
    obtain rfl := Option.some.inj h
    exact ⟨none, rest, rfl, hrest ▸ hgap, rfl⟩
  · rename_i c s htrim
    split_ifs at h with hc
    obtain ⟨rfl, hhead⟩ := hc
    split at h
    · rename_i title after hsplit
      split_ifs at h with hafter
      obtain rfl := Option.some.inj h
      obtain ⟨rfl, hunquoted⟩ := Text.splitOnce?_eq_some.1 hsplit
      rw [htrim] at hrest
      have hne : gap ≠ [] := by
        rintro rfl
        rw [hrest] at hhead
        exact not_isSpace_quote hhead
      refine ⟨some ⟨gap, title, hne, hgap, hunquoted⟩, after, ?_, List.all_eq_true.1 hafter, rfl⟩
      simpa [QuotedTitle.optionText, QuotedTitle.text] using hrest
    · contradiction

end Parts

namespace HeaderForm

variable {f g : HeaderForm} {s : Text} {h : AdmonitionHeader}

theorem fence?_mark_append (f : Fence) (rest : Text) :
    AdmonitionHeader.fence? (f.mark ++ rest) = some (f, rest) := by
  cases f <;> rfl

theorem not_isSpace_word (f : HeaderForm) (rest : Text) :
    ∀ c ∈ (f.word ++ rest).head?, ¬ Text.isSpace c := by
  intro c hc hspace
  obtain ⟨d, word, hword⟩ := List.exists_cons_of_ne_nil f.word_ne_nil
  rw [hword] at hc
  obtain rfl := Option.some.inj hc
  exact Text.not_isWord_of_isSpace hspace (f.isWord_word d (hword ▸ List.mem_cons_self))

theorem not_isWord_behind (f : HeaderForm) :
    ∀ c ∈ (QuotedTitle.optionText f.quoted ++ f.ending).head?, ¬ Text.isWord c := fun c hc =>
  Text.not_isWord_of_isSpace (isSpace_of_mem_head? f.isSpace_ending c hc)

/-- A line of the form is a header with its parts. -/
theorem parse_text (f : HeaderForm) : AdmonitionHeader.parse f.text = some f.header := by
  have htrim : Text.trimStart (f.gap ++ (f.word ++ (QuotedTitle.optionText f.quoted ++ f.ending))) =
      f.word ++ (QuotedTitle.optionText f.quoted ++ f.ending) :=
    Text.dropWhile_run f.isSpace_gap (f.not_isSpace_word _)
  have hword : (f.word ++ (QuotedTitle.optionText f.quoted ++ f.ending)).takeWhile Text.isWord = f.word :=
    Text.takeWhile_run f.isWord_word f.not_isWord_behind
  have hbehind : (f.word ++ (QuotedTitle.optionText f.quoted ++ f.ending)).dropWhile Text.isWord =
      QuotedTitle.optionText f.quoted ++ f.ending :=
    Text.dropWhile_run f.isWord_word f.not_isWord_behind
  have hhead := isSpace_head_append f.gap_ne_nil f.isSpace_gap
    (f.word ++ (QuotedTitle.optionText f.quoted ++ f.ending))
  have hne : f.word.isEmpty = false := by simpa using f.word_ne_nil
  simp only [AdmonitionHeader.parse, text, fence?_mark_append, htrim, hword, hbehind, hhead, hne, guard,
    titleText?_optionText f.isSpace_ending, Option.bind_eq_bind, Option.bind_some, if_true,
    Bool.not_false, nonempty_title]
  rfl

/-- A line that is a header has the form. -/
theorem exists_of_parse (hp : AdmonitionHeader.parse s = some h) :
    ∃ f : HeaderForm, f.text = s ∧ f.header = h := by
  simp only [AdmonitionHeader.parse, guard, Option.bind_eq_bind, Option.bind_eq_some_iff,
    Prod.exists] at hp
  obtain ⟨fence, rest, hf, _, hhead, _, hword, title, ht, hp⟩ := hp
  obtain rfl := Option.some.inj hp
  obtain ⟨o, ending, hbehind, hending, rfl⟩ := exists_of_titleText? ht
  have hgap : rest.takeWhile Text.isSpace ≠ [] := by
    cases rest with
    | nil => simp at hhead
    | cons c rest =>
      have hc : Text.isSpace c := by
        by_contra hc
        simp [hc] at hhead
      rw [List.takeWhile_cons_of_pos hc]
      exact List.cons_ne_nil _ _
  have hne : (Text.trimStart rest).takeWhile Text.isWord ≠ [] := by
    intro hnil
    simp [hnil] at hword
  have hrest : rest.takeWhile Text.isSpace ++ Text.trimStart rest = rest :=
    List.takeWhile_append_dropWhile
  refine ⟨⟨fence, rest.takeWhile Text.isSpace, (Text.trimStart rest).takeWhile Text.isWord, o, ending, hgap,
    List.all_eq_true.1 List.all_takeWhile, hne, List.all_eq_true.1 List.all_takeWhile, hending⟩, ?_, ?_⟩
  · simp only [text, ← hbehind, List.takeWhile_append_dropWhile, hrest]
    exact (AdmonitionHeader.eq_mark_append_of_fence? hf).symm
  · simp only [header, nonempty_title]

theorem text_injective : Function.Injective text := by
  intro f g h
  have hfence := congrArg AdmonitionHeader.fence? h
  rw [text, text, fence?_mark_append, fence?_mark_append] at hfence
  obtain ⟨hfence, hrest⟩ := Prod.mk.inj (Option.some.inj hfence)
  obtain ⟨hgap, hrest⟩ := Text.run_unique hrest f.isSpace_gap (f.not_isSpace_word _) g.isSpace_gap
    (g.not_isSpace_word _)
  obtain ⟨hword, hrest⟩ := Text.run_unique hrest f.isWord_word f.not_isWord_behind g.isWord_word
    g.not_isWord_behind
  obtain ⟨hquoted, hending⟩ := optionText_unique hrest f.isSpace_ending g.isSpace_ending
  cases f
  cases g
  simp_all

end HeaderForm

namespace AdmonitionHeader

variable {s : Text} {h : AdmonitionHeader}

def render (h : AdmonitionHeader) : Text :=
  h.fence.mark ++ ' ' :: (h.kind ++ match h.title with
    | some t => ' ' :: '"' :: (t ++ ['"'])
    | none => [])

/-- Whether a header can be written as a line: its kind is a word, and its title has no quotation mark. -/
structure Writable (h : AdmonitionHeader) : Prop where
  kind_ne_nil : h.kind ≠ []
  isWord_kind : ∀ c ∈ h.kind, Text.isWord c
  unquoted : ∀ t ∈ h.title, '"' ∉ t

theorem isSpace_blank : ∀ c ∈ [' '], Text.isSpace c := List.forall_mem_singleton.2 (by decide)

def form (h : AdmonitionHeader) (hw : h.Writable) : HeaderForm where
  fence := h.fence
  gap := [' ']
  word := h.kind
  quoted := h.title.pmap (fun t ht => ⟨[' '], t, List.cons_ne_nil _ _, isSpace_blank, ht⟩) hw.unquoted
  ending := []
  gap_ne_nil := List.cons_ne_nil _ _
  isSpace_gap := isSpace_blank
  word_ne_nil := hw.kind_ne_nil
  isWord_word := hw.isWord_kind
  isSpace_ending := fun _ h => absurd h List.not_mem_nil

theorem text_form (hw : h.Writable) : (h.form hw).text = h.render := by
  obtain ⟨fence, kind, title⟩ := h
  cases title <;> simp [form, HeaderForm.text, render, QuotedTitle.optionText, QuotedTitle.text]

theorem header_form (hw : h.Writable) : (h.form hw).header =
    ⟨h.fence, Text.toLower h.kind, h.title.filter (!·.isEmpty)⟩ := by
  obtain ⟨fence, kind, title⟩ := h
  cases title <;> rfl

theorem parse_render (hw : h.Writable) : parse h.render =
    some ⟨h.fence, Text.toLower h.kind, h.title.filter (!·.isEmpty)⟩ := by
  rw [← text_form hw, HeaderForm.parse_text, header_form hw]

theorem filter_nonempty_eq_self {o : Option Text} : o.filter (!·.isEmpty) = o ↔ o ≠ some [] := by
  cases o with
  | none => simp
  | some t => cases t <;> simp [Option.filter]

/-- A header is read back from its line just when it is as a parsed one is. -/
theorem parse_render_eq_iff (hw : h.Writable) : parse h.render = some h ↔
    Text.toLower h.kind = h.kind ∧ h.title ≠ some [] := by
  rw [parse_render hw, ← filter_nonempty_eq_self]
  obtain ⟨fence, kind, title⟩ := h
  simp

theorem writable_of_parse (hp : parse s = some h) :
    h.Writable ∧ Text.toLower h.kind = h.kind ∧ h.title ≠ some [] := by
  obtain ⟨f, -, rfl⟩ := HeaderForm.exists_of_parse hp
  have htitle (t) (ht : t ∈ f.header.title) : '"' ∉ t ∧ t ≠ [] := by
    obtain ⟨hmem, hne⟩ := Option.mem_filter_iff.1 ht
    obtain ⟨q, -, rfl⟩ := Option.map_eq_some_iff.1 hmem
    exact ⟨q.unquoted, by simpa using hne⟩
  refine ⟨⟨Text.toLower_ne_nil f.word_ne_nil, fun _ => Text.isWord_of_mem_toLower f.isWord_word,
    fun t ht => (htitle t ht).1⟩, Text.toLower_toLower f.word, fun h => ?_⟩
  exact (htitle [] h).2 rfl

/-- A line is a header just when it has the form of one, which it has in one way only, and the header is
read off its parts. So what is written with a word for its kind and no quotation mark in its title is
read back, its kind in lower case and an empty title as none; and every parsed header is read back as it
is. -/
theorem parse_reads_forms :
    (∀ s h, parse s = some h ↔ ∃ f : HeaderForm, f.text = s ∧ f.header = h) ∧
      Function.Injective HeaderForm.text ∧
      (∀ h : AdmonitionHeader, h.Writable → parse h.render =
        some ⟨h.fence, Text.toLower h.kind, h.title.filter (!·.isEmpty)⟩) ∧
      (∀ h : AdmonitionHeader, h.Writable →
        (parse h.render = some h ↔ Text.toLower h.kind = h.kind ∧ h.title ≠ some [])) ∧
      ∀ s h, parse s = some h → h.Writable ∧ parse h.render = some h := by
  refine ⟨fun s h => ⟨HeaderForm.exists_of_parse, ?_⟩, HeaderForm.text_injective, fun _ => parse_render,
    fun _ => parse_render_eq_iff, fun s h hp => ?_⟩
  · rintro ⟨f, rfl, rfl⟩
    exact f.parse_text
  · obtain ⟨hw, hself⟩ := writable_of_parse hp
    exact ⟨hw, (parse_render_eq_iff hw).2 hself⟩

def slowDown : AdmonitionHeader := ⟨.collapsible, "warning".toList, some "Slow down".toList⟩

theorem slowDown_read_back : slowDown.Writable ∧ parse slowDown.render = some slowDown := by
  have hw : slowDown.Writable := ⟨by decide, Text.forall_mem_of_all (by decide), by decide⟩
  obtain ⟨-, -, -, hback, -⟩ := parse_reads_forms
  exact ⟨hw, (hback slowDown hw).2 ⟨by decide, by decide⟩⟩

end AdmonitionHeader

end Markdown

end DocsMigration
