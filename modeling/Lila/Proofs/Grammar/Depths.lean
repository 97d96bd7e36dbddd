import Lila.Proofs.Grammar.Scoping
import Lila.Proofs.Grammar.Shape
import Lila.Tree.Printer
import Mathlib.Tactic.Tauto

/-! # Depths and places

The depth of a block is the number of the blocks that were open around it. In a tree
that keeps a block for every pair of braces, these are the blocks around it in the
tree. Where a block of one element is replaced by the element, what stands in it comes
to stand in one block less, at the depth that it had. So a block is deeper than its
place, and its text too far in, if it stands in braces that have nothing else in them,
and only then.
-/

namespace Lila

namespace Tree

/-! ## Places -/

mutual

/-- The tree with every block at the depth of its place: the number of the blocks
around it, of which `around` are not in the tree. -/
def leveled (around : Nat) : Tree → Tree
  | .number x => .number x
  | .binary op lhs rhs => .binary op (lhs.leveled around) (rhs.leveled around)
  | .call name args => .call name (leveledAll around args)
  | .value name expr => .value name (expr.leveled around)
  | .definition name params body => .definition name params (body.leveled around)
  | .block _ body => .block around (leveledAll (around + 1) body)

def leveledAll (around : Nat) : List Tree → List Tree
  | [] => []
  | tree :: trees => tree.leveled around :: leveledAll around trees

end

def Leveled (around : Nat) (tree : Tree) : Prop := tree.leveled around = tree

instance (around : Nat) : DecidablePred (Leveled around) := fun tree =>
  inferInstanceAs (Decidable (tree.leveled around = tree))

theorem leveled_binary {around : Nat} {op : String} {lhs rhs : Tree} :
    (binary op lhs rhs).Leveled around ↔ lhs.Leveled around ∧ rhs.Leveled around := by
  simp [Leveled, leveled]

theorem leveled_call {around : Nat} {name : String} {args : List Tree} :
    (call name args).Leveled around ↔ leveledAll around args = args := by
  simp [Leveled, leveled]

theorem leveled_value {around : Nat} {name : String} {expr : Tree} :
    (value name expr).Leveled around ↔ expr.Leveled around := by
  simp [Leveled, leveled]

theorem leveled_definition {around : Nat} {name : String} {params : List String} {body : Tree} :
    (definition name params body).Leveled around ↔ body.Leveled around := by
  simp [Leveled, leveled]

theorem leveled_block {around depth : Nat} {body : List Tree} :
    (block depth body).Leveled around ↔ around = depth ∧ leveledAll (around + 1) body = body := by
  simp [Leveled, leveled]

theorem leveledAll_cons {around : Nat} {tree : Tree} {trees : List Tree} :
    leveledAll around (tree :: trees) = tree :: trees ↔
      tree.Leveled around ∧ leveledAll around trees = trees := by
  simp [Leveled, leveledAll]

/-! ## Collapsing -/

mutual

/-- Every block has one element only. -/
def Flat : Tree → Prop
  | .number _ => True
  | .binary _ lhs rhs => lhs.Flat ∧ rhs.Flat
  | .call _ args => FlatAll args
  | .value _ expr => expr.Flat
  | .definition _ _ body => body.Flat
  | .block _ body => body.length = 1 ∧ FlatAll body

def FlatAll : List Tree → Prop
  | [] => True
  | tree :: trees => tree.Flat ∧ FlatAll trees

end

mutual

/-- No other block than those of one element stands in a block of one element. -/
def Unmoved : Tree → Prop
  | .number _ => True
  | .binary _ lhs rhs => lhs.Unmoved ∧ rhs.Unmoved
  | .call _ args => UnmovedAll args
  | .value _ expr => expr.Unmoved
  | .definition _ _ body => body.Unmoved
  | .block _ body => (body.length = 1 → FlatAll body) ∧ UnmovedAll body

def UnmovedAll : List Tree → Prop
  | [] => True
  | tree :: trees => tree.Unmoved ∧ UnmovedAll trees

end

mutual

theorem Flat.unmoved : ∀ {tree : Tree}, tree.Flat → tree.Unmoved
  | .number _, _ => trivial
  | .binary _ _ _, h => ⟨h.1.unmoved, h.2.unmoved⟩
  | .call _ _, h => FlatAll.unmovedAll h
  | .value _ expr, h => (show expr.Flat from h).unmoved
  | .definition _ _ body, h => (show body.Flat from h).unmoved
  | .block _ _, h => ⟨fun _ => h.2, FlatAll.unmovedAll h.2⟩

theorem FlatAll.unmovedAll : ∀ {trees : List Tree}, FlatAll trees → UnmovedAll trees
  | [], _ => trivial
  | _ :: _, h => ⟨h.1.unmoved, FlatAll.unmovedAll h.2⟩

end

theorem length_collapseAll (trees : List Tree) : (collapseAll trees).length = trees.length := by
  induction trees with
  | nil => rfl
  | cons tree trees ih => exact congrArg (· + 1) ih

theorem ofBody_of_length_ne {depth : Nat} {body : List Tree} (h : body.length ≠ 1) :
    ofBody depth body = .block depth body := by
  cases body with
  | nil => rfl
  | cons first body =>
      cases body with
      | nil => exact (h rfl).elim
      | cons second body => rfl

theorem and_or_and_iff {p p' q u u' : Prop} (h : p → u) (h' : p' → u') :
    (p ∨ q ∧ u) ∧ (p' ∨ q ∧ u') ↔ p ∧ p' ∨ q ∧ u ∧ u' := by
  tauto

mutual

/-- Collapsing keeps depths. In the same number of blocks as before, all blocks that are
left have the depth of their place if none of them was moved. In fewer of them, only a
tree that has no blocks left can be so. -/
theorem leveled_collapse_iff : ∀ (kept : Tree) {m n : Nat}, kept.Leveled m → n ≤ m →
    (kept.collapse.Leveled n ↔ kept.Flat ∨ n = m ∧ kept.Unmoved)
  | .number x, m, n, _, _ => iff_of_true rfl (.inl trivial)
  | .binary op lhs rhs, m, n, h, hle => by
      obtain ⟨hl, hr⟩ := leveled_binary.1 h
      rw [collapse, leveled_binary, leveled_collapse_iff lhs hl hle,
        leveled_collapse_iff rhs hr hle]
      exact and_or_and_iff Flat.unmoved Flat.unmoved
  | .call name args, m, n, h, hle => by
      rw [collapse, leveled_call]
      exact leveledAll_collapseAll_iff args (leveled_call.1 h) hle
  | .value name expr, m, n, h, hle => by
      rw [collapse, leveled_value]
      exact leveled_collapse_iff expr (leveled_value.1 h) hle
  | .definition name params body, m, n, h, hle => by
      rw [collapse, leveled_definition]
      exact leveled_collapse_iff body (leveled_definition.1 h) hle
  | .block depth body, m, n, h, hle => by
      obtain ⟨rfl, hbody⟩ := leveled_block.1 h
      by_cases hlength : body.length = 1
      · -- The element goes one block outwards, where any block in it is too deep.
        have hall := leveledAll_collapseAll_iff body hbody (Nat.le_succ_of_le hle)
        obtain ⟨element, rfl⟩ := List.length_eq_one_iff.1 hlength
        have hne : n ≠ m + 1 := by omega
        have helement : element.collapse.Leveled n ↔ FlatAll [element] := by
          simpa [collapseAll, leveledAll, Leveled, hne] using hall
        rw [show (block m [element]).collapse = element.collapse from rfl, helement, Flat, Unmoved]
        constructor
        · exact fun hflat => .inl ⟨hlength, hflat⟩
        · rintro (⟨-, hflat⟩ | ⟨-, hflat, -⟩)
          · exact hflat
          · exact hflat hlength
      · have hall := leveledAll_collapseAll_iff body hbody (Nat.succ_le_succ hle)
        have hkept : (block m body).collapse = block m (collapseAll body) :=
          ofBody_of_length_ne (by rwa [length_collapseAll])
        rw [hkept, leveled_block, hall, Flat, Unmoved]
        constructor
        · rintro ⟨rfl, hflat | ⟨-, hunmoved⟩⟩
          · exact .inr ⟨rfl, fun _ => hflat, FlatAll.unmovedAll hflat⟩
          · exact .inr ⟨rfl, fun h => (hlength h).elim, hunmoved⟩
        · rintro (⟨h, -⟩ | ⟨rfl, -, hunmoved⟩)
          · exact (hlength h).elim
          · exact ⟨rfl, .inr ⟨rfl, hunmoved⟩⟩

theorem leveledAll_collapseAll_iff : ∀ (kept : List Tree) {m n : Nat}, leveledAll m kept = kept →
    n ≤ m → (leveledAll n (collapseAll kept) = collapseAll kept ↔
      FlatAll kept ∨ n = m ∧ UnmovedAll kept)
  | [], m, n, _, _ => iff_of_true rfl (.inl trivial)
  | tree :: trees, m, n, h, hle => by
      obtain ⟨htree, htrees⟩ := leveledAll_cons.1 h
      rw [collapseAll, leveledAll_cons, leveled_collapse_iff tree htree hle,
        leveledAll_collapseAll_iff trees htrees hle]
      exact and_or_and_iff Flat.unmoved FlatAll.unmovedAll

end

/-! ## Texts -/

mutual

/-- The text of a tree on a line at the given level. The elements of a block are on
lines one level further in, and its closing brace is at the level of the line that it
was opened on. -/
def layout (level : Nat) : Tree → String
  | .number x => x.display
  | .binary op lhs rhs => "(" ++ lhs.layout level ++ " " ++ op ++ " " ++ rhs.layout level ++ ")"
  | .call name args => applied name (layoutAll level args)
  | .value name expr => "val " ++ name ++ " = " ++ expr.layout level
  | .definition name params body => "def " ++ applied name params ++ " = " ++ body.layout level
  | .block _ body => "\x7b\n" ++ layoutLines (level + 1) body ++ indent level ++ "\x7d"

def layoutAll (level : Nat) : List Tree → List String
  | [] => []
  | tree :: trees => tree.layout level :: layoutAll level trees

def layoutLines (level : Nat) : List Tree → String
  | [] => ""
  | tree :: trees => indent level ++ tree.layout level ++ "\n" ++ layoutLines level trees

end

mutual

theorem display_leveled (level : Nat) : ∀ tree : Tree,
    (tree.leveled level).display = tree.layout level
  | .number _ => rfl
  | .binary _ lhs rhs => by
      rw [leveled, display, layout, display_leveled level lhs, display_leveled level rhs]
  | .call _ args => by rw [leveled, display, layout, displayAll_leveledAll level args]
  | .value _ expr => by rw [leveled, display, layout, display_leveled level expr]
  | .definition _ _ body => by rw [leveled, display, layout, display_leveled level body]
  | .block _ body => by rw [leveled, display, layout, displayLines_leveledAll (level + 1) body]

theorem displayAll_leveledAll (level : Nat) : ∀ trees : List Tree,
    displayAll (leveledAll level trees) = layoutAll level trees
  | [] => rfl
  | tree :: trees => by
      rw [leveledAll, displayAll, layoutAll, display_leveled level tree,
        displayAll_leveledAll level trees]

theorem displayLines_leveledAll (level : Nat) : ∀ trees : List Tree,
    displayLines (indent level) (leveledAll level trees) = layoutLines level trees
  | [] => rfl
  | tree :: trees => by
      rw [leveledAll, displayLines, layoutLines, display_leveled level tree,
        displayLines_leveledAll level trees]

end

/-! ## Lengths of texts -/

theorem length_indent (depth : Nat) : (indent depth).length = 2 * depth := by
  simp [indent]

theorem length_leveledAll (around : Nat) (trees : List Tree) :
    (leveledAll around trees).length = trees.length := by
  induction trees with
  | nil => rfl
  | cons tree trees ih => exact congrArg (· + 1) ih

theorem length_displayAll (trees : List Tree) : (displayAll trees).length = trees.length := by
  induction trees with
  | nil => rfl
  | cons tree trees ih => exact congrArg (· + 1) ih

def total (texts : List String) : Nat := texts.foldr (fun text n => text.length + n) 0

theorem total_cons (text : String) (texts : List String) :
    total (text :: texts) = text.length + total texts := rfl

/-- The brackets and the commas have two characters for each item. -/
theorem length_applied (name : String) (items : List String) :
    (applied name items).length = name.length + 2 * items.length + total items := by
  cases items with
  | nil => simp [applied, total]
  | cons item items =>
      have hlist : (", ".intercalate (item :: items)).length =
          2 * items.length + total (item :: items) := by
        induction items generalizing item with
        | nil => simp [total]
        | cons next items ih =>
            have hcomma : ", ".length = 2 := rfl
            rw [String.intercalate_cons_cons, String.length_append, String.length_append, ih,
              total_cons item, List.length_cons, hcomma]
            omega
      have hopen : "(".length = 1 := rfl
      have hclose : ")".length = 1 := rfl
      rw [applied, String.length_append, String.length_append, String.length_append, hlist,
        List.length_cons, hopen, hclose]
      · omega
      · simp

theorem length_displayLines (indentation : String) (trees : List Tree) :
    (displayLines indentation trees).length =
      (indentation.length + 1) * trees.length + total (displayAll trees) := by
  induction trees with
  | nil => rfl
  | cons tree trees ih =>
      have hbreak : "\n".length = 1 := rfl
      rw [displayLines, displayAll, total_cons, String.length_append, String.length_append,
        String.length_append, ih, hbreak, List.length_cons, Nat.mul_succ]
      omega

/-- The text of a tree is longer than that of the tree with its blocks at the depths of
their places, unless it is that tree. -/
def Stretched (around : Nat) (tree : Tree) : Prop :=
  (tree.leveled around).display.length ≤ tree.display.length ∧
    ((tree.leveled around).display.length = tree.display.length → tree.Leveled around)

theorem total_leveledAll {around : Nat} {trees : List Tree}
    (h : ∀ tree ∈ trees, tree.Stretched around) :
    total (displayAll (leveledAll around trees)) ≤ total (displayAll trees) ∧
      (total (displayAll (leveledAll around trees)) = total (displayAll trees) →
        leveledAll around trees = trees) := by
  induction trees with
  | nil => exact ⟨Nat.le_refl _, fun _ => rfl⟩
  | cons tree trees ih =>
      obtain ⟨⟨hle, heq⟩, htrees⟩ := List.forall_mem_cons.1 h
      obtain ⟨hleAll, heqAll⟩ := ih htrees
      rw [leveledAll, displayAll, displayAll, total_cons, total_cons]
      refine ⟨Nat.add_le_add hle hleAll, fun hsum => ?_⟩
      rw [show tree.leveled around = tree from heq (by omega), heqAll (by omega)]

theorem length_display_block (depth : Nat) (body : List Tree) :
    (block depth body).display.length =
      (2 * (depth + 1) + 1) * body.length + total (displayAll body) + 2 * depth + 3 := by
  have hopen : "\x7b\n".length = 2 := rfl
  have hclose : "\x7d".length = 1 := rfl
  rw [display, String.length_append, String.length_append, String.length_append,
    length_displayLines, length_indent, length_indent, hopen, hclose]
  omega

theorem stretched_block {around depth : Nat} {body : List Tree} (hle : around ≤ depth)
    (h : ∀ element ∈ body, element.Stretched (around + 1)) :
    (block depth body).Stretched around := by
  obtain ⟨hbody, heq⟩ := total_leveledAll h
  have hlines : (2 * (around + 1) + 1) * body.length ≤ (2 * (depth + 1) + 1) * body.length :=
    Nat.mul_le_mul_right _ (by omega)
  rw [Stretched, leveled, length_display_block, length_display_block, length_leveledAll,
    leveled_block]
  refine ⟨by omega, fun hlength => ⟨by omega, heq (by omega)⟩⟩

/-- The blocks of a program are at least as deep as their places. -/
theorem Formed.stretched {d : Nat} {tree : Tree} (h : Formed d tree) {around : Nat}
    (hle : around ≤ d + 1) : tree.Stretched around := by
  induction h generalizing around with
  | number d x => exact ⟨Nat.le_refl _, fun _ => rfl⟩
  | @binary d lhs rhs op _ _ _ _ ihl ihr =>
      obtain ⟨hlhs, heql⟩ := ihl hle
      obtain ⟨hrhs, heqr⟩ := ihr hle
      simp only [Stretched, leveled, display, String.length_append, leveled_binary]
      exact ⟨by omega, fun hlength => ⟨heql (by omega), heqr (by omega)⟩⟩
  | @call d args name _ _ ih =>
      obtain ⟨hargs, heq⟩ := total_leveledAll fun arg harg => ih arg harg hle
      rw [Stretched, leveled, display, display, length_applied, length_applied,
        length_displayAll, length_displayAll, length_leveledAll, leveled_call]
      exact ⟨by omega, fun hlength => heq (by omega)⟩
  | @value d expr name _ _ ih =>
      obtain ⟨hexpr, heq⟩ := ih hle
      simp only [Stretched, leveled, display, String.length_append, leveled_value]
      exact ⟨by omega, fun hlength => heq (by omega)⟩
  | @definition d params body name _ _ _ ih =>
      obtain ⟨hbody, heq⟩ := ih hle
      simp only [Stretched, leveled, display, String.length_append, leveled_definition]
      exact ⟨by omega, fun hlength => heq (by omega)⟩
  | @block d depth body hdepth _ _ _ ih =>
      exact stretched_block (by omega) fun element helement => ih element helement (by omega)

theorem display_eq_layout_iff {body : List Tree} (h : ∀ element ∈ body, Formed 0 element) :
    (block 0 body).display = (block 0 body).layout 0 ↔ (block 0 body).Leveled 0 := by
  have hstretched : (block 0 body).Stretched 0 :=
    stretched_block (Nat.le_refl 0) fun element helement =>
      (h element helement).stretched (Nat.le_refl 1)
  rw [← display_leveled]
  constructor
  · intro hdisplay
    exact hstretched.2 (congrArg String.length hdisplay.symm)
  · intro hleveled
    rw [show (block 0 body).leveled 0 = block 0 body from hleveled]

end Tree

namespace Grammar

open Lila.Tree (leveledAll leveledAll_cons)

/-! ## Programs -/

mutual

theorem Expression.leveled {Γ : Env} {d : Nat} {ts : List Token} {tree : Tree} :
    Expression .block Γ d ts tree → tree.Leveled (d + 1)
  | .mk hfirst hlinks hgroup =>
      hgroup.of_operands (P := Tree.Leveled (d + 1))
        (fun _ _ _ _ hlhs hrhs => Tree.leveled_binary.2 ⟨hlhs, hrhs⟩) hfirst.leveled hlinks.leveled

theorem Operators.leveled {Γ : Env} {d : Nat} {ts : List Token} {links : Links} :
    Operators .block Γ d ts links → ∀ link ∈ links, link.2.Leveled (d + 1)
  | .nil .. => by simp
  | .cons _ hoperand hlinks => List.forall_mem_cons.2 ⟨hoperand.leveled, hlinks.leveled⟩

theorem Operand.leveled {Γ : Env} {d : Nat} {ts : List Token} {tree : Tree} :
    Operand .block Γ d ts tree → tree.Leveled (d + 1)
  | .number .. => rfl
  | .name .. => rfl
  | .call _ hargs => Tree.leveled_call.2 hargs.leveled
  | .group h => h.leveled
  | .block _ _ h => Tree.leveled_block.2 ⟨rfl, h.leveled⟩

theorem Arguments.leveled {Γ : Env} {d : Nat} {ts : List Token} {args : List Tree} :
    Arguments .block Γ d ts args → leveledAll (d + 1) args = args
  | .one h => leveledAll_cons.2 ⟨h.leveled, rfl⟩
  | .cons h hargs => leveledAll_cons.2 ⟨h.leveled, hargs.leveled⟩

theorem Statement.leveled {Γ : Env} {d : Nat} {ts : List Token} {tree : Tree} :
    Statement .block Γ d ts tree → tree.Leveled (d + 1)
  | .value _ h => Tree.leveled_value.2 h.leveled
  | .definition _ _ _ h => Tree.leveled_definition.2 h.leveled
  | .expression h => h.leveled

theorem Body.leveled {Γ : Env} {d : Nat} {ts : List Token} {body : List Tree} :
    Body .block Γ d ts body → leveledAll (d + 1) body = body
  | .last h => leveledAll_cons.2 ⟨h.leveled, rfl⟩
  | .cons _ h hbody => leveledAll_cons.2 ⟨h.leveled, hbody.leveled⟩

end

theorem Program.leveled {ts : List Token} {tree : Tree} (h : Program .block ts tree) :
    tree.Leveled 0 := by
  cases h with
  | mk before behind h => exact Tree.leveled_block.2 ⟨rfl, h.leveled⟩

theorem Program.display_eq_layout_iff {ts : List Token} {tree : Tree}
    (h : Program .ofBody ts tree) : tree.display = tree.layout 0 ↔ tree.Leveled 0 := by
  cases h with
  | mk before behind h => exact Tree.display_eq_layout_iff h.formed

end Grammar

namespace Parser

open Grammar

/-- The depth of a block is the number of the blocks around it in the tree that keeps
every pair of braces. It is the number of those around it in the tree of the program,
and the text of the program indents every block by its place, exactly if no block of
several elements stands in braces that have one element. -/
theorem parse_depths {lexemes : List Lexeme} {tree : Tree} (h : parse lexemes = .ok tree) :
    ∃ body, Program .block (lexemes.map Lexeme.token) (.block 0 body) ∧
      tree = .block 0 (Tree.collapseAll body) ∧
      (Tree.block 0 body).Leveled 0 ∧
      (tree.Leveled 0 ↔ Tree.UnmovedAll body) ∧
      (tree.display = tree.layout 0 ↔ Tree.UnmovedAll body) := by
  have hprogram := program_of_parse h
  obtain ⟨body, hkept, rfl⟩ := hprogram.exists_kept
  obtain ⟨-, hbody⟩ := Tree.leveled_block.1 hkept.leveled
  have hleveled : (Tree.block 0 (Tree.collapseAll body)).Leveled 0 ↔ Tree.UnmovedAll body := by
    rw [Tree.leveled_block, Tree.leveledAll_collapseAll_iff body hbody (Nat.le_refl 1)]
    constructor
    · rintro ⟨-, hflat | ⟨-, hunmoved⟩⟩
      · exact hflat.unmovedAll
      · exact hunmoved
    · exact fun hunmoved => ⟨rfl, .inr ⟨rfl, hunmoved⟩⟩
  exact ⟨body, hkept, rfl, hkept.leveled, hleveled,
    hprogram.display_eq_layout_iff.trans hleveled⟩

/-- Braces around a number move nothing, and the text shows every block at its place. -/
theorem parse_depths_braced_number :
    ∃ tree, parse ([.blockOpen, .blockOpen, .number (.ofBits 0), .blockClose, .newline,
      .blockOpen, .number (.ofBits 0), .newline, .number (.ofBits 0), .blockClose,
      .blockClose].map fun token => ⟨⟨0, 0, 1⟩, token⟩) = .ok tree ∧
      tree = .block 0 [.block 1 [.number (.ofBits 0),
        .block 2 [.number (.ofBits 0), .number (.ofBits 0)]]] ∧
      tree.display = tree.layout 0 := by
  suffices h : parse _ = .ok (.block 0 [.block 1 [.number (.ofBits 0),
      .block 2 [.number (.ofBits 0), .number (.ofBits 0)]]]) by
    obtain ⟨body, -, -, -, hleveled, hlayout⟩ := parse_depths h
    exact ⟨_, h, rfl, hlayout.2 (hleveled.1 (by decide))⟩
  decide +kernel

/-- Two elements in two pairs of braces: one block, and the depth of a second one. -/
theorem parse_depths_doubled_braces :
    ∃ tree, parse ([.blockOpen, .blockOpen, .number (.ofBits 0), .newline, .number (.ofBits 0),
      .blockClose, .blockClose].map fun token => ⟨⟨0, 0, 1⟩, token⟩) = .ok tree ∧
      tree = .block 0 [.block 2 [.number (.ofBits 0), .number (.ofBits 0)]] ∧
      ¬ tree.Leveled 0 ∧ tree.display ≠ tree.layout 0 := by
  suffices h : parse _ = .ok (.block 0 [.block 2 [.number (.ofBits 0), .number (.ofBits 0)]]) by
    have hdeep :
        ¬ (Tree.block 0 [.block 2 [.number (.ofBits 0), .number (.ofBits 0)]]).Leveled 0 := by
      decide
    exact ⟨_, h, rfl, hdeep, mt (program_of_parse h).display_eq_layout_iff.1 hdeep⟩
  decide +kernel

end Parser

end Lila
