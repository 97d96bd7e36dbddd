import Lila.Verifier

/-! # Reports in a message

A message is a sequence of reports, each on lines of its own. The filter sees the lines
only. It tells the headers of other functions by how they start, and passes over the line
behind such a header without a look at it. That this drops whole reports, and exactly those
on blocks of other functions, rests on two things: the label behind a header does not start
like a header, and a quote ends the name in a header, so that no name passes for another
one that goes on from it.
-/

namespace Lila

/-! ## Lines and white space -/

namespace Text

theorem linesFrom_append {line : List Char} (h : '\n' ∉ line) (front rest : List Char) :
    linesFrom front (line ++ '\n' :: rest) =
      (dropReturn (line.reverse ++ front)).reverse :: linesFrom [] rest := by
  induction line generalizing front with
  | nil => cases front <;> simp [linesFrom]
  | cons c line ih =>
      rw [List.mem_cons, not_or] at h
      have hstep : linesFrom front (c :: line ++ '\n' :: rest) =
          linesFrom (c :: front) (line ++ '\n' :: rest) := by
        cases front <;> simp [linesFrom, Ne.symm h.1]
      rw [hstep, ih h.2, List.reverse_cons, List.append_assoc, List.singleton_append]

theorem dropReturn_of_not_mem {line : List Char} (h : '\r' ∉ line) : dropReturn line = line := by
  unfold dropReturn
  split
  · exact (h List.mem_cons_self).elim
  · rfl

def Unbroken (line : List Char) : Prop := '\n' ∉ line ∧ '\r' ∉ line

instance : DecidablePred Unbroken := fun line =>
  inferInstanceAs (Decidable ('\n' ∉ line ∧ '\r' ∉ line))

theorem lines_of_unbroken {parts : List (List Char)} (h : ∀ line ∈ parts, Unbroken line) :
    lines (parts.flatMap (· ++ ['\n'])) = parts := by
  induction parts with
  | nil => rfl
  | cons line parts ih =>
      obtain ⟨hline, hparts⟩ := List.forall_mem_cons.1 h
      have hreturn : '\r' ∉ line.reverse := by simpa using hline.2
      rw [List.flatMap_cons, List.append_assoc, List.singleton_append, lines,
        linesFrom_append hline.1, List.append_nil, dropReturn_of_not_mem hreturn,
        List.reverse_reverse]
      exact congrArg (line :: ·) (ih hparts)

def Blank (text : List Char) : Prop := ∀ c ∈ text, isBlank c = true

theorem all_isBlank {text : List Char} : text.all isBlank = true ↔ Blank text :=
  List.all_eq_true

theorem blank_append {front back : List Char} : Blank (front ++ back) ↔ Blank front ∧ Blank back :=
  List.forall_mem_append

/-- Line breaks are white space, so that it is up to the lines whether a text is blank. -/
theorem blank_unlines {parts : List (List Char)} :
    Blank (unlines parts) ↔ ∀ line ∈ parts, Blank line := by
  have hbreak : Blank ['\n'] := by
    intro c hc
    rw [List.mem_singleton.1 hc]
    decide
  unfold unlines
  induction parts with
  | nil => simp [Blank]
  | cons line parts ih =>
      cases parts with
      | nil => simp
      | cons next parts =>
          rw [List.intercalate_cons_cons, blank_append, blank_append, List.forall_mem_cons]
          exact ⟨fun h => ⟨h.1.1, ih.1 h.2⟩, fun h => ⟨⟨h.1, hbreak⟩, ih.2 h.2⟩⟩

/-- The second text is the first one without the white space at its end. -/
structure Trimmed (text trimmed : List Char) : Prop where
  space : ∃ space, text = trimmed ++ space ∧ Blank space
  last : ∀ c ∈ trimmed.getLast?, isBlank c = false

theorem trimmed_trimEnd (text : List Char) : Trimmed text (trimEnd text) where
  space := by
    refine ⟨(text.reverse.takeWhile isBlank).reverse, ?_, ?_⟩
    · rw [trimEnd, ← List.reverse_append, List.takeWhile_append_dropWhile, List.reverse_reverse]
    · intro c hc
      exact List.all_eq_true.1 List.all_takeWhile c (List.mem_reverse.1 hc)
  last := by
    intro c hc
    rw [trimEnd, List.getLast?_reverse] at hc
    have hhead := List.head?_dropWhile_not isBlank text.reverse
    rw [Option.mem_def.1 hc] at hhead
    exact hhead

theorem Trimmed.blank_of_blank {text trimmed : List Char} (h : Trimmed text trimmed)
    (hblank : Blank trimmed) : Blank text := by
  obtain ⟨space, rfl, hspace⟩ := h.space
  exact blank_append.2 ⟨hblank, hspace⟩

end Text

namespace Verifier

open Text

/-! ## Reports -/

inductive Report where
  /-- On a block that lacks its terminator: the function it is in, what the header says
  behind the name of the function, and the label of the block. -/
  | block (function rest label : List Char)
  /-- Any other line. -/
  | line (text : List Char)

namespace Report

def lines : Report → List (List Char)
  | .block function rest label =>
      ["Basic Block in function '".toList ++ function ++ "' ".toList ++ rest, label]
  | .line text => [text]

def text (r : Report) : List Char := r.lines.flatMap (· ++ ['\n'])

/-- The name has no quote in it, and no line but the header starts like a header. -/
def WellFormed (r : Report) : Prop :=
  (∀ line ∈ r.lines, Unbroken line) ∧
    match r with
    | .block function _ label => '\'' ∉ function ∧ ¬ "Basic Block in function '".toList <+: label
    | .line text => ¬ "Basic Block in function '".toList <+: text

instance : DecidablePred WellFormed
  | .block function rest label =>
      inferInstanceAs (Decidable ((∀ line ∈ (block function rest label).lines, Unbroken line) ∧
        '\'' ∉ function ∧ ¬ "Basic Block in function '".toList <+: label))
  | .line text =>
      inferInstanceAs (Decidable ((∀ other ∈ (line text).lines, Unbroken other) ∧
        ¬ "Basic Block in function '".toList <+: text))

def isForeign (function : String) : Report → Bool
  | .block name _ _ => name != function.toList
  | .line _ => false

theorem lines_flatMap_text {reports : List Report} (h : ∀ r ∈ reports, r.WellFormed) :
    Text.lines (reports.flatMap text) = reports.flatMap lines := by
  have hunbroken : ∀ line ∈ reports.flatMap lines, Unbroken line := by
    intro line hline
    obtain ⟨r, hr, hline⟩ := List.mem_flatMap.1 hline
    exact (h r hr).1 line hline
  rw [← lines_of_unbroken hunbroken, List.flatMap_assoc]
  rfl

end Report

/-! ## Headers -/

/-- Names without quotes are equal if quotes end them, in front of whatever follows. -/
theorem eq_of_quoted {f g rest rest' : List Char} (hf : '\'' ∉ f) (hg : '\'' ∉ g)
    (h : f ++ '\'' :: rest = g ++ '\'' :: rest') : f = g := by
  have hfront : ∀ {name : List Char} (rest : List Char), '\'' ∉ name →
      (name ++ '\'' :: rest).takeWhile (· != '\'') = name := by
    intro name rest hname
    rw [List.takeWhile_append_of_pos]
    · simp
    · intro c hc
      exact bne_iff_ne.2 fun heq => hname (heq ▸ hc)
  rw [← hfront rest hf, h, hfront rest' hg]

theorem headerOf_prefix_iff {f : String} {g : List Char} (rest : List Char) (hf : '\'' ∉ f.toList)
    (hg : '\'' ∉ g) : headerOf f <+: blockHeader ++ g ++ "' ".toList ++ rest ↔ g = f.toList := by
  have hquote : "' ".toList = ['\'', ' '] := rfl
  constructor
  · rintro ⟨more, hmore⟩
    simp only [headerOf, hquote, List.append_assoc, List.append_cancel_left_eq] at hmore
    exact (eq_of_quoted hf hg hmore).symm
  · rintro rfl
    exact List.prefix_append _ rest

theorem isForeign_header {f : String} {g : List Char} (rest : List Char) (hf : '\'' ∉ f.toList)
    (hg : '\'' ∉ g) :
    isForeign f (blockHeader ++ g ++ "' ".toList ++ rest) = (g != f.toList) := by
  have hheader : blockHeader <+: blockHeader ++ g ++ "' ".toList ++ rest := by
    rw [List.append_assoc, List.append_assoc]
    exact List.prefix_append _ _
  have hown := headerOf_prefix_iff rest hf hg
  rw [← List.isPrefixOf_iff_prefix] at hheader hown
  rw [isForeign, hheader, Bool.true_and, bne, Bool.eq_iff_iff, Bool.not_eq_true', Bool.not_eq_true']
  rw [← Bool.not_eq_true, hown, ← Bool.not_eq_true, beq_iff_eq]

theorem isForeign_of_not_header (f : String) {line : List Char} (h : ¬ blockHeader <+: line) :
    isForeign f line = false := by
  rw [← List.isPrefixOf_iff_prefix, Bool.not_eq_true] at h
  rw [isForeign, h, Bool.false_and]

/-! ## Dropped and kept reports -/

theorem dropForeign_of_kept {f : String} {line : List Char} (h : isForeign f line = false)
    (lines : List (List Char)) :
    dropForeign f (line :: lines) = line :: dropForeign f lines := by
  cases lines <;> simp [dropForeign, h]

theorem dropForeign_of_foreign {f : String} {header : List Char} (h : isForeign f header = true)
    (label : List Char) (lines : List (List Char)) :
    dropForeign f (header :: label :: lines) = dropForeign f lines := by
  simp [dropForeign, h]

/-- A report is dropped as a whole or kept as a whole, whatever follows it. -/
theorem dropForeign_report {f : String} (hf : '\'' ∉ f.toList) {r : Report} (hr : r.WellFormed)
    (lines : List (List Char)) :
    dropForeign f (r.lines ++ lines) =
      if r.isForeign f then dropForeign f lines else r.lines ++ dropForeign f lines := by
  cases r with
  | block g rest label =>
      obtain ⟨-, hg, hlabel⟩ := hr
      have hheader := isForeign_header rest hf hg
      rw [Report.isForeign, ← hheader]
      split
      · next hforeign => exact dropForeign_of_foreign hforeign label lines
      · next hown =>
          rw [Bool.not_eq_true] at hown
          have hkept := isForeign_of_not_header f hlabel
          exact (dropForeign_of_kept hown _).trans (congrArg _ (dropForeign_of_kept hkept lines))
  | line text => exact dropForeign_of_kept (isForeign_of_not_header f hr.2) lines

theorem dropForeign_reports {f : String} (hf : '\'' ∉ f.toList) {reports : List Report}
    (h : ∀ r ∈ reports, r.WellFormed) :
    dropForeign f (reports.flatMap Report.lines) =
      (reports.filter fun r => !r.isForeign f).flatMap Report.lines := by
  induction reports with
  | nil => rfl
  | cons r reports ih =>
      obtain ⟨hr, hreports⟩ := List.forall_mem_cons.1 h
      rw [List.flatMap_cons, dropForeign_report hf hr, ih hreports, List.filter_cons]
      cases r.isForeign f <;> rfl

/-! ## The filter -/

/-- What is left of a message is trimmed, and so is the message where that is blank. -/
theorem ownFailures_trimmed (message f : String) :
    let kept := unlines (dropForeign f (lines message.toList))
    (¬ Blank kept → Trimmed kept (ownFailures message f).toList) ∧
    (Blank kept → Trimmed message.toList (ownFailures message f).toList) := by
  intro kept
  have hown : (ownFailures message f).toList =
      trimEnd (if kept.all isBlank then message.toList else kept) := String.toList_ofList
  rw [hown, ← all_isBlank]
  constructor
  · intro hkept
    rw [if_neg hkept]
    exact trimmed_trimEnd kept
  · intro hkept
    rw [if_pos hkept]
    exact trimmed_trimEnd message.toList

/-- Of a message made of reports, those on blocks of other functions are left out and all else
is kept, up to the white space at the end; where only blank lines are left the whole message
stands. And nothing is ever lost to the point that only white space is left. -/
theorem ownFailures_of_reports :
    (∀ (reports : List Report) (f : String), (∀ r ∈ reports, r.WellFormed) → '\'' ∉ f.toList →
      let message := String.ofList (reports.flatMap Report.text)
      let kept := (reports.filter fun r => !r.isForeign f).flatMap Report.lines
      ((∃ line ∈ kept, ¬ Blank line) →
        Trimmed (['\n'].intercalate kept) (ownFailures message f).toList) ∧
      ((∀ line ∈ kept, Blank line) →
        Trimmed message.toList (ownFailures message f).toList)) ∧
    ∀ message f : String, Blank (ownFailures message f).toList → Blank message.toList := by
  constructor
  · intro reports f hreports hf message kept
    have hkept : dropForeign f (lines message.toList) = kept := by
      rw [String.toList_ofList, Report.lines_flatMap_text hreports, dropForeign_reports hf hreports]
    have hown := ownFailures_trimmed message f
    rw [hkept] at hown
    constructor
    · rintro ⟨line, hline, hblank⟩
      exact hown.1 fun hall => hblank (blank_unlines.1 hall line hline)
    · intro hall
      exact hown.2 (blank_unlines.2 hall)
  · intro message f hblank
    obtain ⟨hkept, hmessage⟩ := ownFailures_trimmed message f
    by_cases hall : Blank (unlines (dropForeign f (lines message.toList)))
    · exact (hmessage hall).blank_of_blank hblank
    · exact (hall ((hkept hall).blank_of_blank hblank)).elim

/-- The name of another function goes on from the one that is asked for. -/
theorem ownFailures_of_longer_name :
    let reports : List Report := [
      .block "hh".toList "has no end!".toList "label %a".toList,
      .line "Stray value!".toList,
      .block "h".toList "has no end!".toList "label %b".toList]
    let message := "Basic Block in function 'hh' has no end!\nlabel %a\nStray value!\n" ++
      "Basic Block in function 'h' has no end!\nlabel %b\n"
    (∀ r ∈ reports, r.WellFormed) ∧ '\'' ∉ "h".toList ∧
      String.ofList (reports.flatMap Report.text) = message ∧
      Trimmed "Stray value!\nBasic Block in function 'h' has no end!\nlabel %b".toList
        (ownFailures message "h").toList := by
  intro reports message
  have hreports : ∀ r ∈ reports, r.WellFormed := by decide
  have hmessage : String.ofList (reports.flatMap Report.text) = message := by decide
  have hstray : ¬ Blank "Stray value!".toList := fun h =>
    absurd (h 'S' (by decide)) (by decide)
  have hown := (ownFailures_of_reports.1 reports "h" hreports (by decide)).1
    ⟨"Stray value!".toList, by decide, hstray⟩
  refine ⟨hreports, by decide, hmessage, ?_⟩
  rw [hmessage] at hown
  exact hown

end Verifier

end Lila
