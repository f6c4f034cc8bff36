import DocsMigration.Proofs.Ending
import DocsMigration.Proofs.Split
import DocsMigration.Proofs.ValueEquality
/-! What merging does to the metadata of a page. The mapping that is written has the author's entries,
a title if there was none, and the weight; all that can go wrong is on the way through the text, where
the written YAML is trimmed before the delimiter is put behind it. Of writing YAML it is taken for granted
only that no line of the text is a delimiter, and of reading it only that a reader may be trusted with
the text that was written for a mapping: what it makes of any other text is its own affair. So the
metadata is safe exactly if the reader is given that text. -/

namespace DocsMigration

namespace Yaml

theorem Value.agrees_string_iff (v : Value) (s : Text) : v.agrees (.string s) ↔ v = .string s := by
  cases v <;> simp [Value.agrees]

namespace Mapping

def HasKey (m : Mapping) (key : Value) : Prop := ∃ v, (key, v) ∈ m

theorem contains_string_iff (m : Mapping) (s : Text) :
    m.contains (.string s) ↔ HasKey m (.string s) := by
  simp only [contains, List.any_eq_true, Value.agrees_string_iff, HasKey]
  constructor
  · rintro ⟨⟨k, v⟩, hm, rfl⟩
    exact ⟨v, hm⟩
  · rintro ⟨v, hm⟩
    exact ⟨_, hm, rfl⟩

/-- `m'` is `m` with the value of a key set: where the key stands first, or else at the end. -/
def IsUpdate (m : Mapping) (key value : Value) (m' : Mapping) : Prop :=
  (∃ a v b, m = a ++ (key, v) :: b ∧ ¬ HasKey a key ∧ m' = a ++ (key, value) :: b) ∨
    (¬ HasKey m key ∧ m' = m ++ [(key, value)])

theorem isUpdate_insert (m : Mapping) (s : Text) (value : Value) :
    IsUpdate m (.string s) value (m.insert (.string s) value) := by
  induction m with
  | nil => exact .inr ⟨by simp [HasKey], rfl⟩
  | cons e m ih =>
    obtain ⟨k, v⟩ := e
    rw [insert]
    by_cases hk : k = .string s
    · rw [if_pos ((Value.agrees_string_iff _ _).2 hk)]
      subst hk
      exact .inl ⟨[], v, m, rfl, by simp [HasKey], rfl⟩
    · rw [if_neg fun h => hk ((Value.agrees_string_iff _ _).1 h)]
      have hcons (a : Mapping) (ha : ¬ HasKey a (.string s)) : ¬ HasKey ((k, v) :: a) (.string s) := by
        rintro ⟨w, hw⟩
        rcases List.mem_cons.1 hw with hw | hw
        · exact hk (Prod.mk.inj hw).1.symm
        · exact ha ⟨w, hw⟩
      rcases ih with ⟨a, w, b, rfl, ha, hins⟩ | ⟨hm, hins⟩
      · exact .inl ⟨(k, v) :: a, w, b, rfl, hcons a ha, by rw [hins]; rfl⟩
      · exact .inr ⟨hcons m hm, by rw [hins]; rfl⟩

theorem insert_behind {a : Mapping} {s : Text} (ha : ¬ HasKey a (.string s)) (v value : Value)
    (b : Mapping) : insert (.string s) value (a ++ (.string s, v) :: b) =
      a ++ (.string s, value) :: b := by
  induction a with
  | nil => rw [List.nil_append, insert, if_pos ((Value.agrees_string_iff _ _).2 rfl)]; rfl
  | cons e a ih =>
    have he : ¬ e.1.agrees (.string s) := fun h =>
      ha ⟨e.2, by rw [← (Value.agrees_string_iff _ _).1 h]; exact List.mem_cons_self⟩
    have ha : ¬ HasKey a (.string s) := fun ⟨w, hw⟩ => ha ⟨w, List.mem_cons_of_mem e hw⟩
    rw [List.cons_append, insert, if_neg he, ih ha]
    rfl

theorem insert_new {m : Mapping} {s : Text} (hm : ¬ HasKey m (.string s)) (value : Value) :
    insert (.string s) value m = m ++ [(.string s, value)] := by
  induction m with
  | nil => rfl
  | cons e m ih =>
    have he : ¬ e.1.agrees (.string s) := fun h =>
      hm ⟨e.2, by rw [← (Value.agrees_string_iff _ _).1 h]; exact List.mem_cons_self⟩
    have hm : ¬ HasKey m (.string s) := fun ⟨w, hw⟩ => hm ⟨w, List.mem_cons_of_mem e hw⟩
    rw [insert, if_neg he, ih hm]
    rfl

theorem isUpdate_iff {m : Mapping} {s : Text} {value : Value} {m' : Mapping} :
    IsUpdate m (.string s) value m' ↔ m' = m.insert (.string s) value := by
  refine ⟨?_, fun h => h ▸ isUpdate_insert m s value⟩
  rintro (⟨a, v, b, rfl, ha, rfl⟩ | ⟨hm, rfl⟩)
  · exact (insert_behind ha v value b).symm
  · exact (insert_new hm value).symm

theorem IsUpdate.ne_nil {m m' : Mapping} {key value : Value} (h : IsUpdate m key value m') :
    m' ≠ [] := by
  rcases h with ⟨a, v, b, -, -, rfl⟩ | ⟨-, rfl⟩ <;> simp

end Mapping

end Yaml

namespace Markdown

namespace FrontMatter

open Yaml Yaml.Layout

/-- `m'` is `m` with a title, if `m` has none under the string that is its key, and with the weight;
whatever else is in `m` stays where it is. -/
def Completes (m : Mapping) (title : Text) (weight : Nat) (m' : Mapping) : Prop :=
  ∃ titled, (Mapping.HasKey m titleKey ∧ titled = m ∨
      ¬ Mapping.HasKey m titleKey ∧ titled = m ++ [(titleKey, .string title)]) ∧
    Mapping.IsUpdate titled weightKey (.int weight) m'

theorem completes_iff {m : Mapping} {title : Text} {weight : Nat} {m' : Mapping} :
    Completes m title weight m' ↔ m' = complete m title weight := by
  have hkey : m.contains titleKey ↔ m.HasKey titleKey := Mapping.contains_string_iff _ _
  have htitled : ∀ titled, (m.HasKey titleKey ∧ titled = m ∨
      ¬ m.HasKey titleKey ∧ titled = m ++ [(titleKey, .string title)]) ↔
      titled = if m.contains titleKey then m else m.insert titleKey (.string title) := by
    intro titled
    by_cases h : m.HasKey titleKey
    · simp [h, hkey.2 h]
    · have hnew : m.insert titleKey (.string title) = m ++ [(titleKey, .string title)] :=
        Mapping.insert_new h _
      rw [if_neg fun hc => h (hkey.1 hc), hnew]
      simp [h]
  simp only [Completes, htitled, weightKey, Mapping.isUpdate_iff, exists_eq_left]
  rfl

/-- The metadata of a page as some reader of YAML finds it. -/
def metadataBy (parse? : Text → Option Value) (s : Text) : Mapping :=
  match (split s).yaml with
  | none => []
  | some yaml =>
    if Text.isBlank yaml then []
    else match parse? yaml with
      | some (.mapping m) => m
      | _ => []

theorem metadataBy_parse? (s : Text) : metadataBy Yaml.parse? s = (ofPage s).metadata := by
  unfold metadataBy ofPage read
  cases (split s).yaml with
  | none => rfl
  | some yaml =>
    simp only [Option.map_some, Option.getD_some]
    split_ifs
    · rfl
    · cases Yaml.parse? yaml with
      | none => rfl
      | some v => cases v <;> rfl

theorem not_isDelimiter_of_unmarked {s : Text} (h : Unmarked s) :
    ∀ l ∈ Text.fullLines s, ¬ isDelimiter l := by
  intro l hl hd
  have hmark : marker <+: l := delimiter_prefix hd
  cases hs : Text.fullLines s with
  | nil => simp [hs] at hl
  | cons first rest =>
    rw [hs] at hl
    rcases List.mem_cons.1 hl with rfl | hl
    · exact h.1 (hmark.trans (Text.prefix_of_fullLines hs))
    · have hinfix := Text.newline_infix_of_mem_tail (s := s) (l := l) (by rwa [hs])
      exact h.2 (List.IsInfix.trans (List.cons_prefix_cons.2 ⟨rfl, hmark⟩).isInfix hinfix)

/-- No line is a delimiter, whatever whitespace ends it. -/
def Undelimited (s : Text) : Prop := ∀ l ∈ Text.fullLines s, ¬ isDelimiter l

theorem isDelimiter_concat {c : Char} (hc : Text.isSpace c) (l : Text) :
    isDelimiter (l ++ [c]) = isDelimiter l := by
  rw [isDelimiter, isDelimiter, trimEnd_concat, if_pos hc]

theorem undelimited_concat {c : Char} (hc : Text.isSpace c) (s : Text) :
    Undelimited (s ++ [c]) ↔ Undelimited s := by
  rcases Text.fullLines_concat s c with ⟨ls, l, hs, hsc⟩ | hsc
  · simp [Undelimited, hs, hsc, or_imp, forall_and, isDelimiter_concat hc]
  · have hline : ¬ isDelimiter [c] := by
      rw [← List.nil_append [c], isDelimiter_concat hc]
      decide
    simp [Undelimited, hsc, or_imp, forall_and, hline]

theorem undelimited_trimEnd (s : Text) : Undelimited (Text.trimEnd s) ↔ Undelimited s := by
  induction s using List.reverseRecOn with
  | nil => rfl
  | append_singleton s c ih =>
    rw [trimEnd_concat]
    split_ifs with hc
    · rw [ih, undelimited_concat hc]
    · rfl

/-- A writer that puts no delimiter on a line of its own. -/
def Undelimiting (write : Writer) : Prop := ∀ m yaml, write m = some yaml → Undelimited yaml

theorem undelimiting_writer : Undelimiting Yaml.writer := by
  rintro m _ ⟨⟩
  exact not_isDelimiter_of_unmarked (unmarked_render m)

/-- A block in front of a body is cut off it again. -/
theorem split_block_append {yaml : Text} (h : Undelimited yaml) (b : Text) :
    split (block yaml ++ '\n' :: b) = ⟨some (Text.trimEnd yaml ++ ['\n']), b⟩ := by
  have hlines : Undelimited (Text.trimEnd yaml ++ ['\n']) :=
    (undelimited_concat (by decide) _).2 ((undelimited_trimEnd yaml).2 h)
  have hpage : block yaml ++ '\n' :: b =
      delimiter ++ '\n' :: (Text.trimEnd yaml ++ ['\n']) ++ delimiter ++ '\n' :: b := by
    simp [block]
  rw [hpage, split_assembled (by simp) hlines]

section Merging

variable {write : Writer} {s title : Text} {weight : Nat} {m' : Mapping}

/-- Whatever the page, a merged page is cut into what was written for the mapping, trimmed, and the
body. -/
theorem split_mergeBy (hwrite : Undelimiting write) (s title : Text) (weight : Nat) :
    split (mergeBy write s title weight) =
      ⟨some (Text.trimEnd ((write (complete (ofPage s).metadata title weight)).getD []) ++ ['\n']),
        '\n' :: dropBlankLines (split s).body⟩ := by
  have hyaml : Undelimited ((write (complete (ofPage s).metadata title weight)).getD []) := by
    cases h : write (complete (ofPage s).metadata title weight) with
    | none => simp [Undelimited, Text.fullLines]
    | some yaml => exact hwrite _ _ h
  rw [← split_block_append hyaml]
  simp [mergeBy]

theorem split_merge (s title : Text) (weight : Nat) :
    split (merge s title weight) =
      ⟨some (Text.trimEnd (render (complete (ofPage s).metadata title weight)) ++ ['\n']),
        '\n' :: dropBlankLines (split s).body⟩ :=
  split_mergeBy undelimiting_writer s title weight

/-- When a reader that may be trusted with what was written for the mapping finds it again, whichever
reader it is. -/
theorem forall_metadataBy_mergeBy_iff (hwrite : Undelimiting write)
    (hm : Completes (ofPage s).metadata title weight m') :
    (∀ parse?, (∀ yaml, write m' = some yaml → parse? yaml = some (.mapping m')) →
        metadataBy parse? (mergeBy write s title weight) = m') ↔
      ∃ yaml, write m' = some yaml ∧ Text.trimEnd yaml ++ ['\n'] = yaml ∧ ¬ Text.isBlank yaml := by
  have hcut := congrArg Split.yaml (split_mergeBy hwrite s title weight)
  rw [← completes_iff.1 hm] at hcut
  generalize ht : Text.trimEnd ((write m').getD []) ++ ['\n'] = t at hcut
  constructor
  · intro h
    -- the reader that knows nothing but the text written for the mapping
    have hread := h (fun t => if write m' = some t then some (.mapping m') else none) (by simp)
    obtain ⟨titled, -, hupdate⟩ := hm
    simp only [metadataBy, hcut] at hread
    split_ifs at hread with hblank hwritten
    · exact absurd hread.symm hupdate.ne_nil
    · refine ⟨t, hwritten, ?_, hblank⟩
      rwa [hwritten] at ht
    · exact absurd hread.symm hupdate.ne_nil
  · rintro ⟨yaml, hwritten, htrim, hblank⟩ parse? hp
    obtain rfl : yaml = t := by rw [← ht, hwritten, Option.getD_some, htrim]
    simp [metadataBy, hcut, hblank, hp yaml hwritten]

end Merging

/-- When merging keeps metadata. Whatever the writer, a reader that may be trusted with the text of the
completed mapping finds the mapping again, whichever reader it is, if and only if trimming takes one
line feed from the text and nothing else: for only then is the reader given the text itself. Of the
text that is written here, that is so if and only if the scalar written last shows how it ends. -/
theorem merge_keeps (s title : Text) (weight : Nat) (m' : Mapping)
    (hm : Completes (ofPage s).metadata title weight m') :
    (∀ write, Undelimiting write →
      ((∀ parse?, (∀ yaml, write m' = some yaml → parse? yaml = some (.mapping m')) →
          metadataBy parse? (mergeBy write s title weight) = m') ↔
        ∃ yaml, write m' = some yaml ∧ Text.trimEnd yaml ++ ['\n'] = yaml ∧ ¬ Text.isBlank yaml)) ∧
      (split (merge s title weight)).yaml = some (Text.trimEnd (render m') ++ ['\n']) ∧
      (Yaml.parse? (render m') = some (.mapping m') → isSettled (lastPart (.mapping m')) →
        (ofPage (merge s title weight)).metadata = m') ∧
      ((∀ parse?, parse? (render m') = some (.mapping m') →
          metadataBy parse? (merge s title weight) = m') ↔
        isSettled (lastPart (.mapping m'))) := by
  have hyaml : (split (merge s title weight)).yaml = some (Text.trimEnd (render m') ++ ['\n']) := by
    rw [split_merge, completes_iff.1 hm]
  have hiff : (∀ parse?, parse? (render m') = some (.mapping m') →
      metadataBy parse? (merge s title weight) = m') ↔ isSettled (lastPart (.mapping m')) := by
    have h := forall_metadataBy_mergeBy_iff undelimiting_writer hm
    simpa [merge, Yaml.writer, trimEnd_render_iff, not_isBlank_render] using h
  refine ⟨fun write hwrite => forall_metadataBy_mergeBy_iff hwrite hm, hyaml, fun hp hs => ?_, hiff⟩
  rw [← metadataBy_parse?]
  exact hiff.2 hs Yaml.parse? hp

def notePage (note : Text) : Text :=
  "---\ntitle: A\nweight: 3\nnote: ".toList ++ note ++ "---\nBody\n".toList

def noteMetadata (note : Text) : Mapping :=
  [(titleKey, .string "A".toList), (weightKey, .int 1), (.string "note".toList, .string note)]

/-- One line break at the end of the note is kept. -/
theorem note_kept :
    Completes (ofPage (notePage "|\n  hello\n".toList)).metadata "T".toList 1
        (noteMetadata "hello\n".toList) ∧
      (ofPage (merge (notePage "|\n  hello\n".toList) "T".toList 1)).metadata =
        noteMetadata "hello\n".toList := by
  have hm : Completes (ofPage (notePage "|\n  hello\n".toList)).metadata "T".toList 1
      (noteMetadata "hello\n".toList) := completes_iff.2 (by decide +kernel)
  exact ⟨hm, (merge_keeps _ _ _ _ hm).2.2.1 (by decide +kernel) (by decide +kernel)⟩

/-- Of two line breaks the second is lost, although the mapping itself can be written and read
back. -/
theorem note_damaged :
    Completes (ofPage (notePage "|+\n  hello\n\n".toList)).metadata "T".toList 1
        (noteMetadata "hello\n\n".toList) ∧
      Yaml.parse? (render (noteMetadata "hello\n\n".toList)) =
        some (.mapping (noteMetadata "hello\n\n".toList)) ∧
      (ofPage (merge (notePage "|+\n  hello\n\n".toList) "T".toList 1)).metadata =
        noteMetadata "hello\n".toList ∧
      noteMetadata "hello\n".toList ≠ noteMetadata "hello\n\n".toList :=
  ⟨completes_iff.2 (by decide +kernel), by decide +kernel, by decide +kernel, by decide +kernel⟩

end FrontMatter

end Markdown

end DocsMigration
