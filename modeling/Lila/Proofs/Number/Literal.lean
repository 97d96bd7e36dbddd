import Lila.Number.Literal
import Mathlib.Data.List.TakeWhile

/-! # Literals in a text

Where a literal ends depends on the text behind it: on the next character, and at a point
on the one after it. The scanner does not look ahead. It goes over a point when it comes
to one, and gives it back if no digit follows. That this finds the longest literal, and
gives a point back exactly behind an integer, is said with `split`, which cuts a text by
its runs of digits, and with `Cut`, which says where a cut may be.
-/

namespace Lila

/-! ## Runs of characters -/

/-- The text is empty or starts with a character outside the class. -/
def Ends (p : Char → Bool) (more : List Char) : Prop := ∀ c ∈ more.head?, p c = false

theorem ends_nil (p : Char → Bool) : Ends p [] := by simp [Ends]

theorem ends_cons {p : Char → Bool} {c : Char} {more : List Char} :
    Ends p (c :: more) ↔ p c = false := by simp [Ends]

theorem ends_dropWhile (p : Char → Bool) (text : List Char) : Ends p (text.dropWhile p) := by
  intro c hc
  have hhead := List.head?_dropWhile_not p text
  rw [Option.mem_def.1 hc] at hhead
  exact hhead

theorem Ends.imp {p q : Char → Bool} {more : List Char} (h : Ends q more)
    (hpq : ∀ c, q c = false → p c = false) : Ends p more :=
  fun c hc => hpq c (h c hc)

theorem Ends.append {p : Char → Bool} {text more : List Char} (h : Ends p text)
    (hmore : text = [] → Ends p more) : Ends p (text ++ more) := by
  cases text with
  | nil => exact hmore rfl
  | cons c text => exact ends_cons.2 (ends_cons.1 h)

theorem takeWhile_run {p : Char → Bool} {text more : List Char} (htext : ∀ c ∈ text, p c = true)
    (hmore : Ends p more) : (text ++ more).takeWhile p = text := by
  rw [List.takeWhile_append_of_pos htext]
  cases more with
  | nil => simp
  | cons c more => simp [ends_cons.1 hmore]

theorem dropWhile_run {p : Char → Bool} {text more : List Char} (htext : ∀ c ∈ text, p c = true)
    (hmore : Ends p more) : (text ++ more).dropWhile p = more := by
  rw [List.dropWhile_append_of_pos htext]
  cases more with
  | nil => rfl
  | cons c more => simp [ends_cons.1 hmore]

namespace Literal

/-! ## Cuts -/

/-- The longest literal at the front of a text that starts with a digit, and
what follows it. A point is part of it only with a digit behind it. -/
def split (text : List Char) : List Char × List Char :=
  let whole := text.takeWhile Char.isDigit
  match text.dropWhile Char.isDigit with
  | '.' :: d :: more =>
      if d.isDigit then
        (whole ++ '.' :: (d :: more).takeWhile Char.isDigit, (d :: more).dropWhile Char.isDigit)
      else (whole, '.' :: d :: more)
  | rest => (whole, rest)

theorem split_append (text : List Char) :
    (split text).1 ++ (split text).2 = text := by
  unfold split
  have hall := List.takeWhile_append_dropWhile (p := Char.isDigit) (l := text)
  split
  · next d more hrest =>
      rw [hrest] at hall
      split
      · rw [List.append_assoc, List.cons_append, List.takeWhile_append_dropWhile]
        exact hall
      · exact hall
  · exact hall

/-- Where `split` cuts: behind a run of digits, or behind two with a point between. -/
inductive Cut : List Char → List Char → Prop
  | whole {digits rest : List Char} (hdigits : ∀ c ∈ digits, c.isDigit = true)
      (hrest : Ends Char.isDigit rest)
      (hpoint : ∀ d more, rest = '.' :: d :: more → d.isDigit = false) : Cut digits rest
  | fraction {digits places rest : List Char} (hdigits : ∀ c ∈ digits, c.isDigit = true)
      (hplaces : ∀ c ∈ places, c.isDigit = true) (hne : places ≠ [])
      (hrest : Ends Char.isDigit rest) : Cut (digits ++ '.' :: places) rest

theorem Cut.split {text rest : List Char} (h : Cut text rest) :
    Literal.split (text ++ rest) = (text, rest) := by
  cases h with
  | whole hdigits hrest hpoint =>
      unfold Literal.split
      rw [takeWhile_run hdigits hrest, dropWhile_run hdigits hrest]
      split
      · next _ d more =>
          rw [hpoint d more rfl, if_neg Bool.false_ne_true]
      · rfl
  | @fraction digits places _ hdigits hplaces hne hrest =>
      obtain ⟨d, more, rfl⟩ := List.exists_cons_of_ne_nil hne
      have hpoint : Ends Char.isDigit ('.' :: (d :: more) ++ rest) := ends_cons.2 (by decide)
      rw [List.append_assoc]
      unfold Literal.split
      rw [takeWhile_run hdigits hpoint, dropWhile_run hdigits hpoint]
      have hplaces' := takeWhile_run hplaces hrest
      have hrest' := dropWhile_run hplaces hrest
      simp only [List.cons_append] at hplaces' hrest' ⊢
      rw [if_pos (hplaces d List.mem_cons_self), hplaces', hrest']

theorem cut_split (text : List Char) : Cut (split text).1 (split text).2 := by
  have hdigits : ∀ c ∈ text.takeWhile Char.isDigit, c.isDigit = true :=
    fun _ hc => List.mem_takeWhile_imp hc
  have hrest := ends_dropWhile Char.isDigit text
  unfold split
  split
  · next d more hpoint =>
      cases hd : d.isDigit with
      | true =>
          rw [if_pos rfl]
          refine .fraction hdigits (fun _ hc => List.mem_takeWhile_imp hc) ?_ (ends_dropWhile _ _)
          rw [List.takeWhile_cons_of_pos hd]
          exact List.cons_ne_nil _ _
      | false =>
          rw [if_neg Bool.false_ne_true]
          rw [hpoint] at hrest
          refine .whole hdigits hrest fun d' more' heq => ?_
          cases heq
          exact hd
  · next hpoint =>
      refine .whole hdigits hrest fun d more heq => ?_
      exact (hpoint d more heq).elim

/-- A cut stays where it is if more text comes that cannot go on with the literal. -/
theorem Cut.append {text rest more : List Char} (h : Cut text rest)
    (hdigit : Ends Char.isDigit more) (hpoint : more.head? ≠ some '.') : Cut text (rest ++ more) := by
  cases h with
  | whole hdigits hends hplace =>
      refine .whole hdigits (hends.append fun _ => hdigit) fun d more' heq => ?_
      match rest with
      | [] =>
          rw [List.nil_append] at heq
          rw [heq] at hpoint
          exact (hpoint rfl).elim
      | [_] =>
          cases heq
          exact ends_cons.1 hdigit
      | _ :: _ :: rest =>
          cases heq
          exact hplace d rest rfl
  | fraction hdigits hplaces hne hends =>
      exact .fraction hdigits hplaces hne (hends.append fun _ => hdigit)

/-! ## Scanning -/

theorem absorb_digits {digits : List Char} (hdigits : ∀ c ∈ digits, c.isDigit = true)
    (dotted : Bool) (taken rest : List Char) :
    absorb dotted taken (digits ++ rest) = absorb dotted (digits.reverse ++ taken) rest := by
  induction digits generalizing taken with
  | nil => rfl
  | cons c digits ih =>
      obtain ⟨hc, hdigits⟩ := List.forall_mem_cons.1 hdigits
      rw [List.cons_append, absorb, if_pos hc, ih hdigits, List.reverse_cons, List.append_assoc,
        List.singleton_append]

theorem absorb_of_ends {rest : List Char} {dotted : Bool} (hrest : Ends Char.isDigit rest)
    (hpoint : rest.head? = some '.' → dotted = true) (taken : List Char) :
    absorb dotted taken rest = (taken, rest) := by
  cases rest with
  | nil => rfl
  | cons c rest =>
      have hc := ends_cons.1 hrest
      have hstop : ¬ (c = '.' ∧ dotted = false) := by
        rintro ⟨rfl, hdotted⟩
        rw [hpoint rfl] at hdotted
        cases hdotted
      rw [absorb, hc, if_neg Bool.false_ne_true, if_neg hstop]

theorem absorb_point (taken rest : List Char) :
    absorb false taken ('.' :: rest) = absorb true ('.' :: taken) rest := rfl

theorem not_mem_of_digits {digits : List Char} (h : ∀ c ∈ digits, c.isDigit = true) :
    '.' ∉ digits := by
  intro hmem
  have hdigit := h '.' hmem
  revert hdigit
  decide

theorem scan_of_absorb {text taken rest : List Char} (h : absorb false [] text = (taken, rest))
    (htaken : taken.head? ≠ some '.') : scan text = (taken.reverse, rest, false) := by
  rw [scan, h]
  split
  · next heq =>
      cases heq
      exact (htaken rfl).elim
  · next heq =>
      cases heq
      rfl

/-- The scan stops at a cut, with a point given back where one is behind an integer. -/
theorem Cut.scan {text rest : List Char} (h : Cut text rest) :
    Literal.scan (text ++ rest) =
      (text, rest, !text.contains '.' && rest.head? == some '.') := by
  cases h with
  | whole hdigits hrest hpoint =>
      have hnone : text.contains '.' = false := by
        simpa using not_mem_of_digits hdigits
      have habsorb := absorb_digits hdigits false [] rest
      rw [List.append_nil] at habsorb
      by_cases hhead : rest.head? = some '.'
      · obtain ⟨more, rfl⟩ := List.head?_eq_some_iff.1 hhead
        have hmore : Ends Char.isDigit more := by
          cases more with
          | nil => exact ends_nil _
          | cons d more => exact ends_cons.2 (hpoint d more rfl)
        rw [absorb_point, absorb_of_ends hmore fun _ => rfl] at habsorb
        rw [Literal.scan, habsorb, hnone]
        simp
      · rw [absorb_of_ends hrest fun h => absurd h hhead] at habsorb
        have htaken : text.reverse.head? ≠ some '.' := fun h =>
          not_mem_of_digits hdigits (List.mem_reverse.1 (List.mem_of_mem_head? h))
        rw [scan_of_absorb habsorb htaken, List.reverse_reverse, hnone]
        simp [hhead]
  | @fraction digits places _ hdigits hplaces hne hrest =>
      have habsorb := absorb_digits hdigits false [] ('.' :: (places ++ rest))
      rw [absorb_point, absorb_digits hplaces, absorb_of_ends hrest fun _ => rfl] at habsorb
      have htaken : (places.reverse ++ '.' :: (digits.reverse ++ [])).head? ≠ some '.' := by
        obtain ⟨d, more, hlast⟩ := List.exists_cons_of_ne_nil (List.reverse_ne_nil_iff.2 hne)
        have hd : d ∈ places := List.mem_reverse.1 (hlast ▸ List.mem_cons_self)
        rw [hlast, List.cons_append, List.head?_cons]
        exact fun h => not_mem_of_digits hplaces (Option.some.inj h ▸ hd)
      rw [List.append_assoc, List.cons_append, scan_of_absorb habsorb htaken]
      simp

/-- What is scanned is what `split` cuts off, on every text. -/
theorem scan_eq (text : List Char) :
    scan text = ((split text).1, (split text).2,
      !(split text).1.contains '.' && (split text).2.head? == some '.') := by
  have hscan := (cut_split text).scan
  rwa [split_append] at hscan

/-! ## Literals -/

/-- Digits, or digits on both sides of a point. -/
inductive Written : List Char → Prop
  | whole {digits : List Char} (hne : digits ≠ []) (hdigits : ∀ c ∈ digits, c.isDigit = true) :
      Written digits
  | fraction {digits places : List Char} (hne : digits ≠ [])
      (hdigits : ∀ c ∈ digits, c.isDigit = true) (hne' : places ≠ [])
      (hplaces : ∀ c ∈ places, c.isDigit = true) : Written (digits ++ '.' :: places)

/-- A literal is cut off where the text behind it cannot go on with it. -/
theorem Written.cut {text more : List Char} (h : Written text) (hdigit : Ends Char.isDigit more)
    (hpoint : more.head? ≠ some '.') : Cut text more := by
  cases h with
  | whole hne hdigits =>
      refine .whole hdigits hdigit fun d more' heq => ?_
      rw [heq] at hpoint
      exact (hpoint rfl).elim
  | fraction hne hdigits hne' hplaces => exact .fraction hdigits hplaces hne' hdigit

/-- What is cut off a text that starts with a digit. -/
theorem Cut.written {c : Char} {more text rest : List Char} (h : Cut text rest)
    (htext : c :: more = text ++ rest) (hc : c.isDigit = true) : Written text := by
  cases h with
  | whole hdigits hrest =>
      refine .whole ?_ hdigits
      rintro rfl
      rw [List.nil_append] at htext
      rw [← htext, ends_cons, hc] at hrest
      cases hrest
  | fraction hdigits hplaces hne =>
      refine .fraction ?_ hdigits hne hplaces
      rintro rfl
      obtain ⟨rfl, -⟩ := List.cons.inj htext
      revert hc
      decide

/-! ## Values -/

theorem value?_whole {digits : List Char} (hne : digits ≠ [])
    (hdigits : ∀ c ∈ digits, c.isDigit = true) :
    value? digits = some (.ofRatio (ofDigits digits) 1) := by
  have htake := takeWhile_run hdigits (ends_nil _)
  have hdrop := dropWhile_run hdigits (ends_nil _)
  rw [List.append_nil] at htake hdrop
  simp [value?, htake, hdrop, hne]

theorem value?_fraction {digits places : List Char} (hne : digits ≠ [])
    (hdigits : ∀ c ∈ digits, c.isDigit = true) (hne' : places ≠ [])
    (hplaces : ∀ c ∈ places, c.isDigit = true) :
    value? (digits ++ '.' :: places) =
      some (.ofRatio (ofDigits (digits ++ places)) (Nat.pow 10 places.length)) := by
  have hends : Ends Char.isDigit ('.' :: places) := ends_cons.2 (by decide)
  have hall := List.all_eq_true.2 hplaces
  simp [value?, takeWhile_run hdigits hends, dropWhile_run hdigits hends, hne, hne', hall]

theorem written_of_value? {text : List Char} {value : Double} (h : value? text = some value) :
    Written text := by
  have hdigits : ∀ c ∈ text.takeWhile Char.isDigit, c.isDigit = true :=
    fun _ hc => List.mem_takeWhile_imp hc
  have hall := List.takeWhile_append_dropWhile (p := Char.isDigit) (l := text)
  unfold value? at h
  dsimp only at h
  split at h
  · cases h
  · next hne =>
      rw [List.isEmpty_iff] at hne
      split at h
      · next hrest =>
          rw [hrest, List.append_nil] at hall
          exact hall ▸ .whole hne hdigits
      · next fraction hrest =>
          rw [hrest] at hall
          split at h
          · cases h
          · next hplaces =>
              simp only [Bool.or_eq_true, Bool.not_eq_true', List.isEmpty_iff, not_or,
                Bool.not_eq_false, List.all_eq_true] at hplaces
              exact hall ▸ .fraction hne hdigits hplaces.1 hplaces.2
      · cases h

theorem Written.isSome_value? {text : List Char} (h : Written text) :
    (value? text).isSome = true := by
  cases h with
  | whole hne hdigits => rw [value?_whole hne hdigits, Option.isSome_some]
  | fraction hne hdigits hne' hplaces =>
      rw [value?_fraction hne hdigits hne' hplaces, Option.isSome_some]

end Literal

end Lila
