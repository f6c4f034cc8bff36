import DocsMigration.Proofs.Blocks
/-! The block passes go over a page section by section. A page can be cut in front of a line that is no
member of a block: what is open in front of the cut is closed by the line as it is by the end of a page,
and the empty line behind a block is written in either case. A group of tabs goes on with the next tab
header, so for the tabs the line must not be one. -/

namespace DocsMigration

namespace Markdown

namespace Admonition

theorem convertLines_append {b : List Text} (hb : ∀ l ∈ b.head?, ¬ IsMember l) (a : List Text) :
    convertLines (a ++ b) = convertLines a ++ convertLines b := by
  rw [convertLines, outline_append hb, List.flatMap_append]
  rfl

end Admonition

theorem unlines_cut {pass : List Text → List Text} (hne : ∀ ls, ls ≠ [] → pass ls ≠ []) {a b : Text}
    (hcut : pass (Text.lines a ++ Text.lines b) = pass (Text.lines a) ++ pass (Text.lines b)) :
    Text.unlines (pass (Text.lines (a ++ '\n' :: b))) =
      Text.unlines (pass (Text.lines a)) ++ '\n' :: Text.unlines (pass (Text.lines b)) := by
  rw [Text.lines_append_newline, hcut]
  exact Text.unlines_append (hne _ (Text.lines_ne_nil a)) (hne _ (Text.lines_ne_nil b))

/-- A page is converted in two parts where the second starts with a line that is no member of a block,
and, for the tabs, no tab header. -/
theorem sections_convert_apart {a b l : Text} (hl : (Text.lines b).head? = some l) (hne : l ≠ [])
    (hspaces : ¬ "    ".toList <+: l) (htab : l.head? ≠ some '\t') :
    Admonition.convert (a ++ '\n' :: b) = Admonition.convert a ++ '\n' :: Admonition.convert b ∧
      (Tabs.label? l = none →
        Tabs.convert (a ++ '\n' :: b) = Tabs.convert a ++ '\n' :: Tabs.convert b) := by
  obtain ⟨rest, hrest⟩ := List.head?_eq_some_iff.1 hl
  have hmember : ¬ IsMember l := by
    rw [isMember_iff]
    exact not_or.2 ⟨hne, not_or.2 ⟨hspaces, htab⟩⟩
  refine ⟨unlines_cut (fun _ => Admonition.convertLines_ne_nil) ?_, fun hlabel => ?_⟩
  · exact Admonition.convertLines_append (by simpa [hrest] using hmember) _
  · refine unlines_cut (fun _ => Tabs.convertLines_ne_nil) ?_
    rw [hrest, Tabs.convertLines_append_cons hlabel hmember, ← List.nil_append (l :: rest),
      Tabs.convertLines_append_cons hlabel hmember]
    rfl

/-- A note that is open where the page is cut, with blank lines behind its body, and a group of tabs. -/
theorem open_blocks_convert_apart :
    (Text.lines "Text\n=== \"B\"".toList).head? = some "Text".toList ∧ "Text".toList ≠ [] ∧
    ¬ "    ".toList <+: "Text".toList ∧ "Text".toList.head? ≠ some '\t' ∧
    Tabs.label? "Text".toList = none ∧
    Admonition.convert ("!!! note\n    body\n\n".toList ++ '\n' :: "Text\n=== \"B\"".toList) =
      Admonition.convert "!!! note\n    body\n\n".toList ++
        '\n' :: Admonition.convert "Text\n=== \"B\"".toList ∧
    Tabs.convert ("=== \"A\"\n\ta\n".toList ++ '\n' :: "Text\n=== \"B\"".toList) =
      Tabs.convert "=== \"A\"\n\ta\n".toList ++ '\n' :: Tabs.convert "Text\n=== \"B\"".toList := by
  have hl : (Text.lines "Text\n=== \"B\"".toList).head? = some "Text".toList := by decide
  have hspaces : ¬ "    ".toList <+: "Text".toList := by decide
  have hlabel : Tabs.label? "Text".toList = none := by decide
  exact ⟨hl, by decide, hspaces, by decide, hlabel,
    (sections_convert_apart hl (by decide) hspaces (by decide)).1,
    (sections_convert_apart hl (by decide) hspaces (by decide)).2 hlabel⟩

end Markdown

end DocsMigration
