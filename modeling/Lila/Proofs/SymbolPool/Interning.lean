import Lila.SymbolPool
import Mathlib.Data.Finset.Card

/-! # Values and their texts

A pool answers a known value from its entries and a new one by its text, which it then
keeps. Which of the two happens does not show in the answer: every entry that a call has
ever put into the pool has the text of its value. The entries are told apart by the values
as they were given, so that values which differ in NUL characters only have entries of
their own, with the same text in each.
-/

namespace Lila.SymbolPool

def after (pool : SymbolPool) (values : List String) : SymbolPool :=
  values.foldl (fun pool value => (pool.intern value).2) pool

/-- The pool has an entry for each of the values and for no other, with its text. -/
structure Holds (pool : SymbolPool) (values : List String) : Prop where
  text : ∀ entry ∈ pool.entries, entry.2 = textOf entry.1
  distinct : (pool.entries.map Prod.fst).Nodup
  mem_iff : ∀ value, value ∈ pool.entries.map Prod.fst ↔ value ∈ values

theorem holds_new : Holds {} [] := ⟨by simp, by simp, by simp⟩

/-! ## One call -/

namespace Holds

variable {pool : SymbolPool} {values : List String} {value : String}

theorem intern_known (h : pool.Holds values) (hvalue : value ∈ values) :
    pool.intern value = (textOf value, pool) := by
  unfold intern
  cases hlookup : pool.entries.lookup value with
  | some text =>
      obtain ⟨front, back, hentries, -⟩ := List.lookup_eq_some_iff.1 hlookup
      have htext : text = textOf value := h.text (value, text) (by simp [hentries])
      rw [htext]
  | none =>
      obtain ⟨entry, hentry, rfl⟩ := List.mem_map.1 ((h.mem_iff value).2 hvalue)
      have hne := List.lookup_eq_none_iff.1 hlookup entry hentry
      simp at hne

theorem intern_new (h : pool.Holds values) (hvalue : value ∉ values) :
    pool.intern value = (textOf value, ⟨(value, textOf value) :: pool.entries⟩) := by
  unfold intern
  cases hlookup : pool.entries.lookup value with
  | some text =>
      obtain ⟨front, back, hentries, -⟩ := List.lookup_eq_some_iff.1 hlookup
      have hmem : value ∈ pool.entries.map Prod.fst := by simp [hentries]
      exact (hvalue ((h.mem_iff value).1 hmem)).elim
  | none => rfl

/-- The answer is the same whether the value is known or not. -/
theorem intern_text (h : pool.Holds values) (value : String) :
    (pool.intern value).1 = textOf value := by
  by_cases hvalue : value ∈ values
  · rw [h.intern_known hvalue]
  · rw [h.intern_new hvalue]

theorem intern (h : pool.Holds values) (value : String) :
    (pool.intern value).2.Holds (values ++ [value]) := by
  by_cases hvalue : value ∈ values
  · rw [h.intern_known hvalue]
    refine ⟨h.text, h.distinct, fun other => ?_⟩
    rw [h.mem_iff, List.mem_append, List.mem_singleton]
    constructor
    · exact Or.inl
    · rintro (hother | rfl)
      · exact hother
      · exact hvalue
  · rw [h.intern_new hvalue]
    have hnew : value ∉ pool.entries.map Prod.fst := fun hmem =>
      hvalue ((h.mem_iff value).1 hmem)
    refine ⟨List.forall_mem_cons.2 ⟨rfl, h.text⟩, List.nodup_cons.2 ⟨hnew, h.distinct⟩, ?_⟩
    intro other
    rw [List.map_cons, List.mem_cons, h.mem_iff, List.mem_append, List.mem_singleton, or_comm]

/-! ## A sequence of calls -/

theorem after (h : pool.Holds values) (more : List String) :
    (pool.after more).Holds (values ++ more) := by
  induction more generalizing pool values with
  | nil =>
      rw [List.append_nil]
      exact h
  | cons value more ih =>
      rw [List.append_cons]
      exact ih (h.intern value)

theorem size_eq (h : pool.Holds values) : pool.size = values.toFinset.card := by
  have hkeys : (pool.entries.map Prod.fst).toFinset = values.toFinset := by
    ext value
    rw [List.mem_toFinset, List.mem_toFinset, h.mem_iff]
  rw [← hkeys, List.toFinset_card_of_nodup h.distinct, List.length_map, size]

theorem isEmpty_iff (h : pool.Holds values) : pool.isEmpty = true ↔ values = [] := by
  have hempty : pool.isEmpty = true ↔ pool.size = 0 := by
    rw [isEmpty, size, List.isEmpty_iff, List.length_eq_zero_iff]
  rw [hempty, h.size_eq, Finset.card_eq_zero, List.toFinset_eq_empty_iff]

end Holds

theorem holds_after (values : List String) : (SymbolPool.after {} values).Holds values :=
  holds_new.after values

/-! ## Texts -/

theorem toList_withoutNul (value : String) :
    (withoutNul value).toList = value.toList.filter (· != '\x00') := String.toList_ofList

/-- No value is lost: what is left without NUL characters has an end. -/
theorem terminated?_withoutNul (value : String) :
    terminated? (withoutNul value) = some (withoutNul value) := by
  refine if_neg fun hmem => ?_
  rw [toList_withoutNul, List.mem_filter] at hmem
  exact absurd hmem.2 (by decide)

theorem textOf_eq (value : String) : textOf value = withoutNul value := by
  rw [textOf, terminated?_withoutNul, Option.getD_some]

theorem toList_textOf (value : String) :
    (textOf value).toList = value.toList.filter (· ≠ '\x00') := by
  rw [textOf_eq, toList_withoutNul]
  exact List.filter_congr fun c _ => by rw [bne, beq_eq_decide, decide_not]

theorem textOf_eq_self {value : String} (h : '\x00' ∉ value.toList) : textOf value = value := by
  have hkept : value.toList.filter (· != '\x00') = value.toList := by
    rw [List.filter_eq_self]
    intro c hc
    exact bne_iff_ne.2 fun heq => h (heq ▸ hc)
  rw [textOf_eq, withoutNul, hkept, String.ofList_toList]

/-- Whatever has been interned before, a call gives the value without its NUL characters. The
pool counts the values themselves, a known one leaves it as it was, and values without NUL
characters have texts of their own, also if they are interned into other pools. -/
theorem intern_faithful (earlier : List String) (value : String) :
    let pool := SymbolPool.after {} earlier
    (pool.intern value).1.toList = value.toList.filter (· ≠ '\x00') ∧
    pool.size = earlier.toFinset.card ∧
    (pool.intern value).2.size = (earlier ++ [value]).toFinset.card ∧
    (pool.isEmpty = true ↔ earlier = []) ∧
    (pool.intern value).2.isEmpty = false ∧
    (value ∈ earlier → (pool.intern value).2 = pool) ∧
    ∀ (others : List String) (other : String), '\x00' ∉ value.toList → '\x00' ∉ other.toList →
      value ≠ other → (pool.intern value).1 ≠ ((SymbolPool.after {} others).intern other).1 := by
  intro pool
  have hpool : pool.Holds earlier := holds_after earlier
  have hnext := hpool.intern value
  refine ⟨?_, hpool.size_eq, hnext.size_eq, hpool.isEmpty_iff, ?_, ?_, ?_⟩
  · rw [hpool.intern_text, toList_textOf]
  · rw [← Bool.not_eq_true, hnext.isEmpty_iff]
    simp
  · intro hvalue
    rw [hpool.intern_known hvalue]
  · intro others other hvalue hother hne
    rw [hpool.intern_text, (holds_after others).intern_text, textOf_eq_self hvalue,
      textOf_eq_self hother]
    exact hne

/-- Two values that differ in a NUL character only, and one of them again. -/
theorem intern_faithful_beside_nul :
    let earlier := ["a\x00b", "ab", ""]
    let pool := SymbolPool.after {} earlier
    "ab" ∈ earlier ∧ (pool.intern "ab").2 = pool ∧ (pool.intern "ab").1.toList = ['a', 'b'] ∧
      pool.size = 3 ∧ '\x00' ∉ "ab".toList ∧ '\x00' ∉ "b".toList ∧
      (pool.intern "ab").1 ≠ ((SymbolPool.after {} ["ab"]).intern "b").1 := by
  intro earlier pool
  have hmem : "ab" ∈ earlier := by decide
  obtain ⟨htext, hsize, -, -, -, hknown, hshared⟩ := intern_faithful earlier "ab"
  refine ⟨hmem, hknown hmem, htext.trans (by decide), hsize.trans (by decide), by decide,
    by decide, ?_⟩
  exact hshared ["ab"] "b" (by decide) (by decide) (by decide)

end Lila.SymbolPool
