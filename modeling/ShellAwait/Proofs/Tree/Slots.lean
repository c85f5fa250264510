import Mathlib.Data.List.Forall2
import ShellAwait.Proofs.Tree.Shape

/-! # Slots

A kind of node has slots for the nodes among its elements. In the tree of a script without a problem
the nodes in a node fill the slots of its kind, so whoever looks into the slots comes to all of them.
-/

namespace ShellAwait

/-- What a slot takes. -/
inductive SlotKind where
  | expression | template | statement | block
  /-- The body of an arrow function: a block or an expression. -/
  | body
  /-- What stands first in the head of a loop: a declaration or an expression. -/
  | target
  | pattern | key | member | entry | parameter | parameters | declarator
  /-- A node that is only a part of another. -/
  | part (kind : NodeKind)

inductive Slot where
  | one (wanted : SlotKind)
  | optional (wanted : SlotKind)
  | many (wanted : SlotKind)

namespace NodeKind

def isStatement : NodeKind → Bool
  | .varDecl | .functionDecl | .block | .exprStmt | .emptyStmt | .returnStmt | .ifStmt | .whileStmt
  | .doWhileStmt | .forStmt | .forInStmt | .breakStmt | .continueStmt | .throwStmt | .tryStmt
  | .switchStmt => true
  | _ => false

def isPattern : NodeKind → Bool
  | .identPat | .arrayPat | .objectPat | .assignPat | .restPat => true
  | _ => false

def isPart : NodeKind → Bool
  | .interpolation | .memberName | .argList | .elseClause | .forInit | .forTest | .forUpdate
  | .catchClause | .finallyClause | .switchCase => true
  | _ => false

/-- Whether such a slot takes a node of this kind. -/
def suits (kind : NodeKind) : SlotKind → Bool
  | .expression => kind.isExpression
  | .template => kind = .template
  | .statement => kind.isStatement
  | .block => kind = .block
  | .body => kind = .block || kind.isExpression
  | .target => kind = .varDecl || kind.isExpression
  | .pattern => kind.isPattern
  | .key => kind = .propName || kind = .computedName
  | .member => kind = .property || kind = .method || kind = .spreadElement
  | .entry => kind = .patProp || kind = .restPat
  | .parameter => kind = .param
  | .parameters => kind = .paramList
  | .declarator => kind = .declarator
  | .part part => kind.isPart && kind = part

/-- The slots for the nodes among the elements of a node. -/
def slots : NodeKind → List Slot
  | .broken | .literal | .nameRef | .thisExpr | .propName | .memberName | .identPat | .emptyStmt
  | .breakStmt | .continueStmt => []
  | .script | .block => [.many .statement]
  | .template => [.many (.part .interpolation)]
  | .taggedTemplate => [.one .expression, .one .template]
  | .arrayExpr | .sequenceExpr | .argList => [.many .expression]
  | .objectExpr => [.many .member]
  | .spreadElement | .parenExpr | .prefixExpr | .awaitExpr | .postfixExpr | .interpolation
  | .computedName | .exprStmt | .throwStmt => [.one .expression]
  | .functionExpr | .functionDecl => [.one .parameters, .one .block]
  | .arrow => [.one .parameters, .one .body]
  | .method => [.one .key, .one .parameters, .one .block]
  | .memberExpr => [.one .expression, .one (.part .memberName)]
  | .indexExpr | .binaryExpr | .assignExpr => [.one .expression, .one .expression]
  | .callExpr => [.one .expression, .one (.part .argList)]
  | .newExpr => [.one .expression, .optional (.part .argList)]
  | .condExpr => [.one .expression, .one .expression, .one .expression]
  | .property => [.optional .key, .one .expression]
  | .arrayPat => [.many .pattern]
  | .objectPat => [.many .entry]
  | .patProp => [.optional .key, .one .pattern]
  | .assignPat => [.one .pattern, .one .expression]
  | .restPat => [.one .pattern]
  | .param | .declarator => [.one .pattern, .optional .expression]
  | .paramList => [.many .parameter]
  | .varDecl => [.many .declarator]
  | .returnStmt | .forTest | .forUpdate => [.optional .expression]
  | .ifStmt => [.one .expression, .one .statement, .optional (.part .elseClause)]
  | .elseClause => [.one .statement]
  | .whileStmt => [.one .expression, .one .statement]
  | .doWhileStmt => [.one .statement, .one .expression]
  | .forStmt =>
      [.one (.part .forInit), .one (.part .forTest), .one (.part .forUpdate), .one .statement]
  | .forInit => [.optional .target]
  | .forInStmt => [.one .target, .one .expression, .one .statement]
  | .tryStmt => [.one .block, .optional (.part .catchClause), .optional (.part .finallyClause)]
  | .catchClause => [.optional .pattern, .one .block]
  | .finallyClause => [.one .block]
  | .switchStmt => [.one .expression, .many (.part .switchCase)]
  | .switchCase => [.optional .expression, .many .statement]

end NodeKind

/-- A list fills slots: nothing is left over, and no slot that needs something is empty. -/
inductive Fills {α : Type} (suits : α → SlotKind → Bool) : List Slot → List α → Prop
  | nil : Fills suits [] []
  | one {wanted : SlotKind} {slots : List Slot} {a : α} {more : List α} :
      suits a wanted = true → Fills suits slots more → Fills suits (.one wanted :: slots) (a :: more)
  | absent {wanted : SlotKind} {slots : List Slot} {more : List α} :
      Fills suits slots more → Fills suits (.optional wanted :: slots) more
  | present {wanted : SlotKind} {slots : List Slot} {a : α} {more : List α} :
      suits a wanted = true → Fills suits slots more →
      Fills suits (.optional wanted :: slots) (a :: more)
  | done {wanted : SlotKind} {slots : List Slot} {more : List α} :
      Fills suits slots more → Fills suits (.many wanted :: slots) more
  | next {wanted : SlotKind} {slots : List Slot} {a : α} {more : List α} :
      suits a wanted = true → Fills suits (.many wanted :: slots) more →
      Fills suits (.many wanted :: slots) (a :: more)

namespace Fills

variable {α β : Type} {suits : α → SlotKind → Bool} {suits' : β → SlotKind → Bool}

theorem append {s t : List Slot} {a b : List α} (ha : Fills suits s a) (hb : Fills suits t b) :
    Fills suits (s ++ t) (a ++ b) := by
  induction ha with
  | nil => exact hb
  | one h _ ih => exact .one h ih
  | absent _ ih => exact .absent ih
  | present h _ ih => exact .present h ih
  | done _ ih => exact .done ih
  | next h _ ih => exact .next h ih

theorem mono {slots : List Slot} {a : List α} {b : List β} (h : Fills suits slots a)
    (hab : List.Forall₂ (fun x y => ∀ wanted, suits x wanted = true → suits' y wanted = true) a b) :
    Fills suits' slots b := by
  induction h generalizing b with
  | nil =>
      cases hab
      exact .nil
  | one h _ ih =>
      cases hab with
      | cons hfirst hmore => exact .one (hfirst _ h) (ih hmore)
  | absent _ ih => exact .absent (ih hab)
  | present h _ ih =>
      cases hab with
      | cons hfirst hmore => exact .present (hfirst _ h) (ih hmore)
  | done _ ih => exact .done (ih hab)
  | next h _ ih =>
      cases hab with
      | cons hfirst hmore => exact .next (hfirst _ h) (ih hmore)

theorem nil_iff {a : List α} : Fills suits [] a ↔ a = [] := by
  constructor
  · intro h
    cases h
    rfl
  · rintro rfl
    exact .nil

theorem one_iff {wanted : SlotKind} {slots : List Slot} {a : List α} :
    Fills suits (.one wanted :: slots) a ↔
      ∃ x more, a = x :: more ∧ suits x wanted = true ∧ Fills suits slots more := by
  constructor
  · intro h
    cases h with
    | one h hmore => exact ⟨_, _, rfl, h, hmore⟩
  · rintro ⟨x, more, rfl, h, hmore⟩
    exact .one h hmore

theorem optional_iff {wanted : SlotKind} {slots : List Slot} {a : List α} :
    Fills suits (.optional wanted :: slots) a ↔
      Fills suits slots a ∨ ∃ x more, a = x :: more ∧ suits x wanted = true ∧
        Fills suits slots more := by
  constructor
  · intro h
    cases h with
    | absent hmore => exact .inl hmore
    | present h hmore => exact .inr ⟨_, _, rfl, h, hmore⟩
  · rintro (hmore | ⟨x, more, rfl, h, hmore⟩)
    · exact .absent hmore
    · exact .present h hmore

theorem many_iff {wanted : SlotKind} {a : List α} :
    Fills suits [.many wanted] a ↔ ∀ x ∈ a, suits x wanted = true := by
  constructor
  · intro h
    generalize hslots : [Slot.many wanted] = slots at h
    induction h with
    | nil | one | absent | present => cases hslots
    | done h =>
        cases hslots
        cases h
        exact fun x hx => absurd hx List.not_mem_nil
    | next h _ ih =>
        cases hslots
        intro x hx
        rcases List.mem_cons.mp hx with rfl | hx
        · exact h
        · exact ih rfl x hx
  · intro h
    induction a with
    | nil => exact .done .nil
    | cons x more ih =>
        exact .next (h x List.mem_cons_self) (ih fun y hy => h y (List.mem_cons_of_mem x hy))

end Fills

namespace Tree

/-- The kinds of the nodes among elements. -/
def kinds (trees : List Tree) : List NodeKind := trees.filterMap nodeKind?

@[simp] theorem kinds_append (a b : List Tree) : kinds (a ++ b) = kinds a ++ kinds b :=
  List.filterMap_append

/-- What stands behind the first parenthesis that closes. -/
def behindHead (children : List Tree) : List Tree := children.dropWhile (!·.isLeafOf .rParen)

mutual

/-- The nodes in every node fill its slots. In a loop over a value the head is closed in front of the
body. -/
def Filled : Tree → Prop
  | .leaf _ => True
  | .node kind children =>
      (Fills NodeKind.suits kind.slots (kinds children) ∧
        (kind = .forInStmt → (kinds (behindHead children)).length = 1)) ∧ FilledAll children

def FilledAll : List Tree → Prop
  | [] => True
  | tree :: rest => tree.Filled ∧ FilledAll rest

end

theorem filledAll_iff (trees : List Tree) : FilledAll trees ↔ ∀ tree ∈ trees, tree.Filled := by
  induction trees with
  | nil => simp [FilledAll]
  | cons tree rest ih => simp [FilledAll, ih]

/-! ## Trivia does not matter -/

theorem kinds_stripAll (trees : List Tree) : kinds (stripAll trees) = kinds trees := by
  induction trees with
  | nil => rfl
  | cons tree rest ih =>
      cases tree with
      | leaf token =>
          rw [stripAll]
          split
          · exact ih
          · exact ih
      | node kind children => exact congrArg (kind :: ·) ih

theorem kinds_behindHead_stripAll (trees : List Tree) :
    kinds (behindHead (stripAll trees)) = kinds (behindHead trees) := by
  induction trees with
  | nil => rfl
  | cons tree rest ih =>
      unfold behindHead at ih ⊢
      cases tree with
      | leaf token =>
          rw [stripAll, isTrivia]
          by_cases htrivia : token.kind.isTrivia = true
          · have hopen : token.kind ≠ .rParen := by
              intro hkind
              rw [hkind] at htrivia
              cases htrivia
            rw [if_pos htrivia, ih, List.dropWhile_cons_of_pos (by simpa [isLeafOf] using hopen)]
          · rw [if_neg htrivia, strip, List.dropWhile_cons, List.dropWhile_cons]
            split
            · exact ih
            · exact kinds_stripAll rest
      | node kind children => exact ih

mutual

theorem Filled.of_strip {tree : Tree} (h : tree.strip.Filled) : tree.Filled := by
  match tree with
  | .leaf token => exact True.intro
  | .node kind children =>
      obtain ⟨⟨hfills, hhead⟩, hchildren⟩ := h
      rw [kinds_stripAll] at hfills
      rw [kinds_behindHead_stripAll] at hhead
      exact ⟨⟨hfills, hhead⟩, FilledAll.of_strip hchildren⟩

theorem FilledAll.of_strip {trees : List Tree} (h : FilledAll (stripAll trees)) :
    FilledAll trees := by
  match trees with
  | [] => exact True.intro
  | .leaf token :: rest =>
      refine ⟨True.intro, FilledAll.of_strip ?_⟩
      rw [stripAll] at h
      split at h
      · exact h
      · exact h.2
  | .node kind children :: rest => exact ⟨Filled.of_strip h.1, FilledAll.of_strip h.2⟩

end

end Tree

end ShellAwait
