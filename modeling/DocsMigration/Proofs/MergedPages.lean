import DocsMigration.Migration.Scaffold
import DocsMigration.Proofs.Metadata
/-! What a merged page looks like when it is cut again. The writer puts the delimiters where the reader
looks for them, whatever the page was: the first is the first line, and the second is found before any
line of the body is looked at. Of the body only the blank lines in front of its first line with
something in it are lost, and merging again loses nothing more. The index page of a section is a block
without a body. -/

namespace DocsMigration

namespace Markdown

namespace FrontMatter

open Yaml

theorem dropBlankLines_eq {b : Text} {blank kept : List Text} (hlines : Text.fullLines b = blank ++ kept)
    (hblank : ∀ l ∈ blank, Text.isBlank l) (hkept : ∀ l ∈ kept.head?, ¬ Text.isBlank l) :
    dropBlankLines b = kept.flatten := by
  rw [dropBlankLines, hlines, List.dropWhile_append_of_pos hblank]
  cases kept with
  | nil => rfl
  | cons l kept => rw [List.dropWhile_cons_of_neg (hkept l rfl)]

theorem exists_blank_kept (b : Text) : ∃ blank kept, Text.fullLines b = blank ++ kept ∧
    (∀ l ∈ blank, Text.isBlank l) ∧ ∀ l ∈ kept.head?, ¬ Text.isBlank l := by
  refine ⟨(Text.fullLines b).takeWhile Text.isBlank, (Text.fullLines b).dropWhile Text.isBlank,
    List.takeWhile_append_dropWhile.symm, fun l hl => List.all_eq_true.1 List.all_takeWhile l hl, ?_⟩
  intro l hl
  have hfirst := List.head?_dropWhile_not Text.isBlank (Text.fullLines b)
  rw [Option.mem_def.1 hl] at hfirst
  simpa using hfirst

/-- A text that starts with a line with something in it, or is empty, stays as it is behind a line feed. -/
theorem dropBlankLines_newline_dropBlankLines (b : Text) :
    dropBlankLines ('\n' :: dropBlankLines b) = dropBlankLines b := by
  obtain ⟨blank, kept, hlines, hblank, hkept⟩ := exists_blank_kept b
  rw [dropBlankLines_eq hlines hblank hkept]
  refine @dropBlankLines_eq _ [['\n']] kept ?_ (by decide) hkept
  rw [Text.fullLines, if_pos rfl, Text.fullLines_flatten_right hlines]
  rfl

theorem body_mergeBy_mergeBy {write : Writer} (hwrite : Undelimiting write) (s title : Text) (weight : Nat)
    (title' : Text) (weight' : Nat) :
    (split (mergeBy write (mergeBy write s title weight) title' weight')).body =
      (split (mergeBy write s title weight)).body := by
  rw [split_mergeBy hwrite (mergeBy write s title weight), split_mergeBy hwrite,
    dropBlankLines_newline_dropBlankLines]

/-- A merged page is one block of front matter, which holds the written mapping without the whitespace at
its end, and behind an empty line the body from its first line on that is not blank. Merging once more
keeps that body. -/
theorem merge_yields_block (s title : Text) (weight : Nat) :
    ∃ blank kept, Text.fullLines (split s).body = blank ++ kept ∧
      (∀ l ∈ blank, Text.isBlank l) ∧ (∀ l ∈ kept.head?, ¬ Text.isBlank l) ∧
      (∀ write, Undelimiting write →
        split (mergeBy write s title weight) =
          ⟨some (Text.trimEnd ((write (complete (ofPage s).metadata title weight)).getD []) ++ ['\n']),
            '\n' :: kept.flatten⟩ ∧
        ∀ title' weight', (split (mergeBy write (mergeBy write s title weight) title' weight')).body =
          (split (mergeBy write s title weight)).body) ∧
      split (merge s title weight) =
        ⟨some (Text.trimEnd (render (complete (ofPage s).metadata title weight)) ++ ['\n']),
          '\n' :: kept.flatten⟩ ∧
      ∀ title' weight', (split (merge (merge s title weight) title' weight')).body =
        (split (merge s title weight)).body := by
  obtain ⟨blank, kept, hlines, hblank, hkept⟩ := exists_blank_kept (split s).body
  have hkept' := dropBlankLines_eq hlines hblank hkept
  refine ⟨blank, kept, hlines, hblank, hkept, fun write hwrite => ⟨?_, body_mergeBy_mergeBy hwrite s title weight⟩,
    ?_, body_mergeBy_mergeBy undelimiting_writer s title weight⟩
  · rw [split_mergeBy hwrite, hkept']
  · rw [split_merge, hkept']

/-- Merging is silent exactly if no metadata is replaced or left out. -/
theorem reportsBy_eq_nil_iff {write : Writer} {s title : Text} {weight : Nat} :
    reportsBy write s title weight = [] ↔
      (∀ yaml, (split s).yaml = some yaml → Text.isBlank yaml ∨ Yaml.parse? yaml = some .null ∨
        ∃ m, Yaml.parse? yaml = some (.mapping m)) ∧
      (write (complete (ofPage s).metadata title weight)).isSome := by
  have hread : warnings s = [] ↔ ∀ yaml, (split s).yaml = some yaml →
      Text.isBlank yaml ∨ Yaml.parse? yaml = some .null ∨ ∃ m, Yaml.parse? yaml = some (.mapping m) := by
    rw [warnings, ofPage]
    cases (split s).yaml with
    | none => simp
    | some yaml =>
      by_cases hblank : Text.isBlank yaml
      · simp [read, hblank]
      · cases hp : Yaml.parse? yaml with
        | none => simp [read, hblank, hp]
        | some v => cases v <;> simp [read, hblank, hp]
  rw [reportsBy, List.append_eq_nil_iff, List.map_eq_nil_iff, hread, Writer.failures_eq_nil_iff]

end FrontMatter

end Markdown

namespace Scaffold

open Markdown.FrontMatter Yaml

theorem undelimited_line {l : Text} (hl : '\n' ∉ l) (hhead : ∀ c ∈ l.head?, c ≠ '-') :
    Undelimited (l ++ ['\n']) := by
  intro k hk hd
  rw [Text.fullLines_line hl, List.mem_singleton] at hk
  obtain ⟨rest, hrest⟩ := delimiter_prefix hd
  rw [hk] at hrest
  cases l with
  | nil => exact absurd (List.cons.inj hrest).1 (by decide)
  | cons c l => exact hhead c rfl (List.cons.inj hrest).1.symm

theorem undelimited_append {l s : Text} (hl : Undelimited (l ++ ['\n'])) (hs : Undelimited s) :
    Undelimited (l ++ ['\n'] ++ s) := by
  rw [Undelimited, Text.fullLines_append (by simp)]
  exact fun k hk => (List.mem_append.1 hk).elim (hl k) (hs k)

theorem undelimited_sectionLines {title : Text} (h : '\n' ∉ title) (weight : Nat) :
    Undelimited (sectionLines title weight) := by
  have hdigits : '\n' ∉ Text.ofNat weight := fun hm =>
    (Layout.isGraphic_of_mem_ofNat hm).not_isSpace (by decide)
  have htitle : '\n' ∉ "title: ".toList ++ title := List.not_mem_append (by decide) h
  have hweight : '\n' ∉ "weight: ".toList ++ Text.ofNat weight :=
    List.not_mem_append (by decide) hdigits
  exact undelimited_append (undelimited_line htitle (by simp)) (undelimited_line hweight (by simp))

/-- Whatever the writer, the index page of a section is a block of front matter. If nothing could be
written, its title must not spread over several lines. -/
theorem split_sectionIndexBy {write : Writer} (hwrite : Undelimiting write) {title : Text} {weight : Nat}
    (htitle : sectionReportsBy write title weight ≠ [] → '\n' ∉ title) :
    split (sectionIndexBy write title weight) = ⟨some (Text.trimEnd
      ((write (sectionMetadata title weight)).getD (sectionLines title weight)) ++ ['\n']), []⟩ := by
  refine split_block_append ?_ []
  rw [sectionReportsBy, ne_eq, Writer.failures_eq_nil_iff] at htitle
  cases h : write (sectionMetadata title weight) with
  | none => exact undelimited_sectionLines (htitle (by simp [h])) weight
  | some yaml => exact hwrite _ _ h

end Scaffold

end DocsMigration
