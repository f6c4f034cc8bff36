import DocsMigration.Text.CaseTable
/-! Upper and lower case. Lower case of a whole text knows one rule beyond single characters: a
capital sigma at the end of a word becomes the final sigma. -/

namespace DocsMigration

namespace Text

/-- The lower case of one character; only the dotted capital I needs two. -/
def lowerChar (c : Char) : Text :=
  if c.toNat < 128 then [c.toLower]
  else if c.toNat = 0x130 then ['i', '\u0307']
  else match lowerRuns.findSome? (·.map? c) with
    | some d => [d]
    | none => [c]

def upperChar (c : Char) : Text :=
  if c.toNat < 128 then [c.toUpper]
  else match upperSequences.lookup c.toNat with
    | some ns => ns.map Char.ofNat
    | none => match upperRuns.findSome? (·.map? c) with
      | some d => [d]
      | none => [c]

def isCased (c : Char) : Bool :=
  if c.toNat < 128 then c.isAlpha else inRanges casedRanges c

def isCaseIgnorable (c : Char) : Bool := inRanges caseIgnorableRanges c

def leadsWithCased (s : Text) : Bool :=
  match s.dropWhile isCaseIgnorable with
  | [] => false
  | c :: _ => isCased c

/-- Lower case of the text that follows `before`, which is kept backwards. -/
def toLowerAfter (before : Text) : Text → Text
  | [] => []
  | c :: s =>
    let lower :=
      if c = 'Σ' then
        if leadsWithCased before && !leadsWithCased s then ['ς'] else ['σ']
      else lowerChar c
    lower ++ toLowerAfter (c :: before) s

def toLower (s : Text) : Text := toLowerAfter [] s

def capitalize : Text → Text
  | [] => []
  | c :: s => upperChar c ++ s

end Text

end DocsMigration
