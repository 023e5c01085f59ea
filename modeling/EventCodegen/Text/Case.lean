import EventCodegen.Text.CaseTable

/-! Capital and small forms of a text by the full mappings of Unicode 14: one letter may become
several (`ß` is capitalised as `SS`), and a capital sigma becomes the final small sigma where it
ends a word. -/
namespace EventCodegen.Text

/-- The shift that the first run covering `n` gives it. -/
def shiftIn (n : Nat) : List CaseRun → Nat
  | [] => n
  | r :: rest =>
    if n < r.first then n
    else if n ≤ r.last ∧ (n - r.first) % r.stride = 0 then (n + r.shift).toNat
    else shiftIn n rest

/-- The mapped code points of `n`: an expansion if there is one, else the shift of its run. -/
def mapped (expansions : List (Nat × List Nat)) (runs : List CaseRun) (n : Nat) : List Nat :=
  (expansions.lookup n).getD [shiftIn n runs]

/-- The capital form of one character. -/
def upperChar (c : Char) : List Char :=
  if c.toNat < 0x80 then [if 'a' ≤ c ∧ c ≤ 'z' then Char.ofNat (c.toNat - 32) else c]
  else (mapped upperExpansions upperRuns c.toNat).map Char.ofNat

/-- The small form of one character, without regard to where it stands. -/
def lowerChar (c : Char) : List Char :=
  if c.toNat < 0x80 then [if 'A' ≤ c ∧ c ≤ 'Z' then Char.ofNat (c.toNat + 32) else c]
  else (mapped lowerExpansions lowerRuns c.toNat).map Char.ofNat

/-- Marks, apostrophes and the like, which do not separate a letter from the next. -/
def isCaseIgnorable (c : Char) : Bool := inRanges c.toNat caseIgnorableRanges

/-- Letters that have a capital, small or title form. -/
def isCased (c : Char) : Bool := inRanges c.toNat casedRanges

def capitalSigma : Char := 'Σ'
def finalSigma : Char := 'ς'

/-- Whether the next character that counts is cased. -/
def startsCased : List Char → Bool
  | [] => false
  | c :: rest => if isCaseIgnorable c then startsCased rest else isCased c

/-- Small forms, where `inWord` says whether the last character that counts was cased. A capital
sigma is final after a cased character and before none. -/
def lowerFrom (inWord : Bool) : List Char → List Char
  | [] => []
  | c :: rest =>
    let after := if isCaseIgnorable c then inWord else isCased c
    if c = capitalSigma ∧ inWord ∧ !startsCased rest then finalSigma :: lowerFrom after rest
    else lowerChar c ++ lowerFrom after rest

/-- The capital form of a text. -/
def upper (s : String) : String := String.ofList (s.toList.flatMap upperChar)

/-- The small form of a text. -/
def lower (s : String) : String := String.ofList (lowerFrom false s.toList)

@[simp] theorem toList_upper (s : String) : (upper s).toList = s.toList.flatMap upperChar := by
  simp [upper]

@[simp] theorem toList_lower (s : String) : (lower s).toList = lowerFrom false s.toList := by
  simp [lower]

end EventCodegen.Text
