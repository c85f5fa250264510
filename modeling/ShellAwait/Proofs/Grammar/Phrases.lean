import ShellAwait.Grammar.Parse

/-! # The grammar as a relation

The rules say how to read. The relation `Reads` says what can be read: the phrases of every part of
a script, in front of whatever follows them. Nothing in it runs out, and there are no problems in it;
what is left of the way a script is read are the conditions on the tokens ahead where a rule decides
by them.
-/

namespace ShellAwait.Grammar

/-- A tree whose leaves tell where lines end. -/
inductive Phrase where
  | leaf (token : Lookahead)
  | node (kind : NodeKind) (parts : List Phrase)

namespace Phrase

mutual

def word : Phrase → List Lookahead
  | .leaf token => [token]
  | .node _ parts => words parts

def words : List Phrase → List Lookahead
  | [] => []
  | first :: more => first.word ++ words more

end

mutual

def tree : Phrase → Tree
  | .leaf token => .leaf token.token
  | .node kind parts => .node kind (trees parts)

def trees : List Phrase → List Tree
  | [] => []
  | first :: more => first.tree :: trees more

end

@[simp] theorem words_nil : words [] = [] := rfl

@[simp] theorem words_cons (p : Phrase) (ps : List Phrase) : words (p :: ps) = p.word ++ words ps :=
  rfl

@[simp] theorem words_append (a b : List Phrase) : words (a ++ b) = words a ++ words b := by
  induction a with
  | nil => rfl
  | cons p ps ih => simp [ih]

@[simp] theorem word_leaf (t : Lookahead) : (leaf t).word = [t] := rfl

@[simp] theorem word_node (kind : NodeKind) (parts : List Phrase) :
    (node kind parts).word = words parts := rfl

@[simp] theorem trees_nil : trees [] = [] := rfl

@[simp] theorem trees_cons (p : Phrase) (ps : List Phrase) : trees (p :: ps) = p.tree :: trees ps :=
  rfl

@[simp] theorem trees_append (a b : List Phrase) : trees (a ++ b) = trees a ++ trees b := by
  induction a with
  | nil => rfl
  | cons p ps ih => simp [ih]

end Phrase

open Phrase

def front (ahead : List Lookahead) : Lookahead := ahead.headD .pastEnd

@[simp] theorem front_cons (t : Lookahead) (ahead : List Lookahead) : front (t :: ahead) = t := rfl

/-- What a rule sees where there has been no problem. -/
def viewOf (noIn : Bool) (ahead : List Lookahead) : View := ⟨ahead, noIn, false⟩

@[simp] theorem kind_viewOf (n : Bool) (ahead : List Lookahead) :
    (viewOf n ahead).kind = (front ahead).kind := by
  cases ahead <;> rfl

@[simp] theorem next_viewOf (n : Bool) (ahead : List Lookahead) (kind : TokenKind) :
    (viewOf n ahead).next kind = ((front ahead).kind == kind) := by
  rw [View.next, kind_viewOf]

@[simp] theorem nextIn_viewOf (n : Bool) (ahead : List Lookahead) (kinds : List TokenKind) :
    (viewOf n ahead).nextIn kinds = kinds.contains (front ahead).kind := by
  rw [View.nextIn, kind_viewOf]

@[simp] theorem failed_viewOf (n : Bool) (ahead : List Lookahead) :
    (viewOf n ahead).failed = false := rfl

@[simp] theorem breakAt_viewOf (n : Bool) (ahead : List Lookahead) :
    (viewOf n ahead).breakAt 0 = (front ahead).breakBefore := by
  cases ahead <;> rfl

/-- At most one token, of this kind. -/
def Optional (kind : TokenKind) (parts : List Phrase) : Prop :=
  parts = [] ∨ ∃ t : Lookahead, t.kind = kind ∧ parts = [.leaf t]

def Lookahead.isAsync (t : Lookahead) : Bool := t.kind == .ident && t.text == "async".toList

/-! What is seen behind the first token. -/

@[simp] theorem nextWord_cons (n : Bool) (t : Lookahead) (ahead : List Lookahead) (word : String) :
    (viewOf n (t :: ahead)).nextWord word = (t.kind == .ident && t.text == word.toList) := rfl

@[simp] theorem kindAt_one (n : Bool) (t : Lookahead) (ahead : List Lookahead) :
    (viewOf n (t :: ahead)).kindAt 1 = (front ahead).kind := by
  cases ahead <;> rfl

@[simp] theorem breakAt_one (n : Bool) (t : Lookahead) (ahead : List Lookahead) :
    (viewOf n (t :: ahead)).breakAt 1 = (front ahead).breakBefore := by
  cases ahead <;> rfl

@[simp] theorem startsAsyncFunction_cons (n : Bool) (t : Lookahead) (ahead : List Lookahead) :
    (viewOf n (t :: ahead)).startsAsyncFunction =
      (Lookahead.isAsync t && (front ahead).kind == .functionKw && !(front ahead).breakBefore) := by
  rw [View.startsAsyncFunction, kindAt_one, breakAt_one, nextWord_cons]
  rfl

/-- Whether the parameters of an arrow function come right after `async`. -/
def startsParameters (ahead : List Lookahead) : Bool :=
  match (front ahead).kind with
  | .ident => (front ahead.tail).kind == .fatArrow
  | .lParen => closesBeforeArrow 0 ahead
  | _ => false

theorem startsArrow_ident {n : Bool} {t : Lookahead} {ahead : List Lookahead} (ht : t.kind = .ident) :
    (viewOf n (t :: ahead)).startsArrow = ((front ahead).kind == .fatArrow ||
      Lookahead.isAsync t && !(front ahead).breakBefore && startsParameters ahead) := by
  have hsecond : (viewOf n (t :: ahead)).kindAt 2 = (front ahead.tail).kind := by
    cases ahead with
    | nil => rfl
    | cons u rest => cases rest <;> rfl
  have hword : (viewOf n (t :: ahead)).nextWord "async" = Lookahead.isAsync t := rfl
  have hparen : (viewOf n (t :: ahead)).parametersAt 1 =
      ((front ahead).kind == .lParen && closesBeforeArrow 0 ahead) := by
    rw [View.parametersAt, kindAt_one]
    rfl
  rw [View.startsArrow, kind_viewOf, front_cons, ht, kindAt_one, breakAt_one, hword, hsecond, hparen,
    startsParameters]
  cases (front ahead).kind == .fatArrow with
  | true => rfl
  | false =>
      cases Lookahead.isAsync t && !(front ahead).breakBefore with
      | false => rfl
      | true =>
          cases (front ahead).kind <;> rfl

def Modifier (parts : List Phrase) : Prop :=
  parts = [] ∨ ∃ t, Lookahead.isAsync t = true ∧ parts = [.leaf t]

/-! ## Parts -/

inductive Item where
  | patternElement | patternEntry | parameter | element | property
deriving DecidableEq

/-- Everything that the rules read as a unit. -/
inductive Part where
  | category (category : Category)
  | withDefault
  | key
  | initializer
  | function (needsName : Bool)
  | arrowParameters
  | arrowBody
  /-- An operand with links so far. The callee of `new` has no calls among them. -/
  | chain (calls : Bool)
  | templateParts
  /-- Operands so far, joined by operators that bind at least this tightly. -/
  | operands (floor : Nat)
  | commas
  | item (item : Item)
  /-- Items with commas between them. -/
  | items (item : Item) (holes : Bool)
  | enclosed (what : Enclosure)
  /-- An enclosure that is a node of its own. -/
  | group (what : Enclosure)
  | statements
  | terminator
  | declaration
  | declarators
  | otherwise
  | headFirst
  | clause
  | clauses
  | head (kind : NodeKind)
  | catching
  | ending
  | handlers
  | switchCases

namespace Part

abbrev statement : Part := .category .statement

abbrev expression : Part := .category .expression

abbrev assignment : Part := .category .assignment

abbrev pattern : Part := .category .pattern

end Part

namespace Enclosure

/-- What stands between the two tokens. The head of a loop depends on the loop. -/
def inner : Enclosure → Part
  | .block => .statements
  | .condition | .interpolation | .index | .parenthesis | .loopHead => .expression
  | .catchBinding => .pattern
  | .switchBody => .switchCases
  | .argumentList => .items .element false
  | .array => .items .element true
  | .objectLiteral => .items .property false
  | .computedKey => .assignment
  | .parameterList => .items .parameter false
  | .arrayPattern => .items .patternElement true
  | .objectPattern => .items .patternEntry false
  | .template => .templateParts

/-- Whether `in` is an operator between the two tokens, even in the head of a loop. -/
def freesIn : Enclosure → Bool
  | .index | .parenthesis | .argumentList | .array | .objectLiteral => true
  | _ => false

/-- Whether `in` is no operator between the two tokens. -/
def noIn (what : Enclosure) (outside : Bool) : Bool := !what.freesIn && outside

/-- The node that an enclosure is. -/
def kind? : Enclosure → Option NodeKind
  | .block => some .block
  | .argumentList => some .argList
  | .array => some .arrayExpr
  | .objectLiteral => some .objectExpr
  | .parenthesis => some .parenExpr
  | .computedKey => some .computedName
  | .parameterList => some .paramList
  | .arrayPattern => some .arrayPat
  | .objectPattern => some .objectPat
  | .template => some .template
  | .interpolation => some .interpolation
  | .condition | .loopHead | .catchBinding | .switchBody | .index => none

def isPattern : Enclosure → Bool
  | .arrayPattern | .objectPattern => true
  | _ => false

def isOperand : Enclosure → Bool
  | .parenthesis | .array | .objectLiteral | .template => true
  | _ => false

end Enclosure

def isPlainKey (kind : TokenKind) : Bool :=
  kind.isReserved || [TokenKind.ident, .string, .number].contains kind

def isMemberName (kind : TokenKind) : Bool := kind == .ident || kind.isReserved

def chainLinks (calls : Bool) : List TokenKind := if calls then linkKinds else [.dot, .lBracket]

def isLiteral : TokenKind → Bool
  | .number | .string | .regex | .trueKw | .falseKw | .nullKw => true
  | _ => false

def isDeclarer : TokenKind → Bool
  | .varKw | .letKw | .constKw => true
  | _ => false

def jumpKind? : TokenKind → Option NodeKind
  | .breakKw => some .breakStmt
  | .continueKw => some .continueStmt
  | _ => none

/-- An expression that begins like this can be a statement. -/
def View.startsValue (v : View) : Bool :=
  !v.nextIn [.lBrace, .functionKw] && !v.startsAsyncFunction && !(v.next .ident && v.kindAt 1 == .colon)

/-! ## Reading -/

/-- The phrases that a part reads in front of the given tokens. `noIn` tells whether `in` is no
operator. -/
inductive Reads : Part → Bool → List Phrase → List Lookahead → Prop
  -- Enclosures and lists
  | enclosed {what : Enclosure} {n : Bool} {o c : Lookahead} {l : List Phrase}
      {rest : List Lookahead} :
      what ≠ .loopHead → o.kind = what.opener → c.kind = what.closer →
      Reads what.inner (what.noIn n) l (c :: rest) →
      Reads (.enclosed what) n (.leaf o :: (l ++ [.leaf c])) rest
  | group {what : Enclosure} {kind : NodeKind} {n : Bool} {l : List Phrase}
      {rest : List Lookahead} :
      what.kind? = some kind → Reads (.enclosed what) n l rest →
      Reads (.group what) n [.node kind l] rest
  | noItem {item : Item} {holes n : Bool} {rest : List Lookahead} :
      Reads (.items item holes) n [] rest
  | hole {item : Item} {n : Bool} {t : Lookahead} {l : List Phrase} {rest : List Lookahead} :
      t.kind = .comma → Reads (.items item true) n l rest →
      Reads (.items item true) n (.leaf t :: l) rest
  | lastItem {item : Item} {holes n : Bool} {p : Phrase} {rest : List Lookahead} :
      Reads (.item item) n [p] rest → Reads (.items item holes) n [p] rest
  | nextItem {item : Item} {holes n : Bool} {t : Lookahead} {p : Phrase} {l : List Phrase}
      {rest : List Lookahead} :
      Reads (.item item) n [p] (t :: (words l ++ rest)) → t.kind = .comma →
      Reads (.items item holes) n l rest → Reads (.items item holes) n (p :: .leaf t :: l) rest
  -- Patterns
  | name {n : Bool} {t : Lookahead} {rest : List Lookahead} :
      t.kind = .ident → Reads .pattern n [.node .identPat [.leaf t]] rest
  | patternGroup {what : Enclosure} {n : Bool} {p : Phrase} {rest : List Lookahead} :
      what.isPattern = true → Reads (.group what) n [p] rest → Reads .pattern n [p] rest
  | noDefault {n : Bool} {p : Phrase} {rest : List Lookahead} :
      Reads .pattern n [p] rest → (front rest).kind ≠ .eq → Reads .withDefault n [p] rest
  | default {n : Bool} {p v : Phrase} {t : Lookahead} {rest : List Lookahead} :
      Reads .pattern n [p] (t :: (words [v] ++ rest)) → t.kind = .eq →
      Reads .assignment n [v] rest → Reads .withDefault n [.node .assignPat [p, .leaf t, v]] rest
  | restElement {item : Item} {n : Bool} {t : Lookahead} {p : Phrase} {rest : List Lookahead} :
      item = .patternElement ∨ item = .patternEntry → t.kind = .dotDotDot →
      Reads .pattern n [p] rest → Reads (.item item) n [.node .restPat [.leaf t, p]] rest
  | patternElement {n : Bool} {p : Phrase} {rest : List Lookahead} :
      Reads .withDefault n [p] rest → Reads (.item .patternElement) n [p] rest
  | patternName {n : Bool} {p : Phrase} {rest : List Lookahead} :
      Reads .withDefault n [p] rest → (viewOf n (words [p] ++ rest)).kind = .ident →
      (viewOf n (words [p] ++ rest)).kindAt 1 ≠ .colon →
      Reads (.item .patternEntry) n [.node .patProp [p]] rest
  | patternKey {n : Bool} {k p : Phrase} {t : Lookahead} {rest : List Lookahead} :
      Reads .key n [k] (t :: (words [p] ++ rest)) → t.kind = .colon →
      Reads .withDefault n [p] rest →
      Reads (.item .patternEntry) n [.node .patProp [k, .leaf t, p]] rest
  | computedKey {n : Bool} {k : Phrase} {rest : List Lookahead} :
      Reads (.group .computedKey) n [k] rest → Reads .key n [k] rest
  | plainKey {n : Bool} {t : Lookahead} {rest : List Lookahead} :
      isPlainKey t.kind = true → Reads .key n [.node .propName [.leaf t]] rest
  -- Functions
  | noInitializer {n : Bool} {rest : List Lookahead} :
      (front rest).kind ≠ .eq → Reads .initializer n [] rest
  | initializer {n : Bool} {t : Lookahead} {v : Phrase} {rest : List Lookahead} :
      t.kind = .eq → Reads .assignment n [v] rest → Reads .initializer n [.leaf t, v] rest
  | parameter {n : Bool} {d i : List Phrase} {p : Phrase} {rest : List Lookahead} :
      Optional .dotDotDot d → Reads .pattern n [p] (words i ++ rest) →
      Reads .initializer n i rest → Reads (.item .parameter) n [.node .param (d ++ p :: i)] rest
  | function {needsName n : Bool} {f : Lookahead} {a m : List Phrase} {ps b : Phrase}
      {rest : List Lookahead} :
      Modifier a → (a ≠ [] → f.breakBefore = false) → f.kind = .functionKw →
      Optional .ident m → (needsName = true → m ≠ []) →
      Reads (.group .parameterList) n [ps] (words [b] ++ rest) → Reads (.group .block) n [b] rest →
      Reads (.function needsName) n (a ++ .leaf f :: (m ++ [ps, b])) rest
  | arrowName {n : Bool} {t : Lookahead} {rest : List Lookahead} :
      t.kind = .ident →
      Reads .arrowParameters n [.node .paramList [.node .param [.node .identPat [.leaf t]]]] rest
  | arrowList {n : Bool} {ps : Phrase} {rest : List Lookahead} :
      Reads (.group .parameterList) n [ps] rest → Reads .arrowParameters n [ps] rest
  | arrowBlock {n : Bool} {b : Phrase} {rest : List Lookahead} :
      Reads (.group .block) n [b] rest → Reads .arrowBody n [b] rest
  | arrowValue {n : Bool} {v : Phrase} {rest : List Lookahead} :
      Reads .assignment n [v] rest → (front (words [v] ++ rest)).kind ≠ .lBrace →
      Reads .arrowBody n [v] rest
  | arrow {n : Bool} {t : Lookahead} {a : List Phrase} {ps b : Phrase} {rest : List Lookahead} :
      Modifier a → (a ≠ [] → (front (words [ps] ++ [t])).breakBefore = false) →
      Reads .arrowParameters n [ps] (t :: (words [b] ++ rest)) → t.kind = .fatArrow →
      Reads .arrowBody n [b] rest → Reads .assignment n [.node .arrow (a ++ [ps, .leaf t, b])] rest
  -- Links
  | operand {calls n : Bool} {p : Phrase} {rest : List Lookahead} :
      Reads (.category .primary) n [p] rest → Reads (.chain calls) n [p] rest
  | member {calls n : Bool} {p : Phrase} {t m : Lookahead} {rest : List Lookahead} :
      Reads (.chain calls) n [p] (t :: m :: rest) →
      t.kind = .dot ∨ calls = true ∧ t.kind = .questionDot → isMemberName m.kind = true →
      Reads (.chain calls) n [.node .memberExpr [p, .leaf t, .node .memberName [.leaf m]]] rest
  | index {calls n : Bool} {p : Phrase} {q i : List Phrase} {rest : List Lookahead} :
      Reads (.chain calls) n [p] (words (q ++ i) ++ rest) → Optional .questionDot q →
      (q ≠ [] → calls = true) → Reads (.enclosed .index) n i rest →
      Reads (.chain calls) n [.node .indexExpr (p :: (q ++ i))] rest
  | call {n : Bool} {p a : Phrase} {q : List Phrase} {rest : List Lookahead} :
      Reads (.chain true) n [p] (words (q ++ [a]) ++ rest) → Optional .questionDot q →
      Reads (.group .argumentList) n [a] rest →
      Reads (.chain true) n [.node .callExpr (p :: (q ++ [a]))] rest
  | tagged {n : Bool} {p s : Phrase} {rest : List Lookahead} :
      Reads (.chain true) n [p] (words [s] ++ rest) → Reads (.group .template) n [s] rest →
      Reads (.chain true) n [.node .taggedTemplate [p, s]] rest
  | noPart {n : Bool} {rest : List Lookahead} : Reads .templateParts n [] rest
  | templateText {n : Bool} {t : Lookahead} {l : List Phrase} {rest : List Lookahead} :
      t.kind = .templateContent → Reads .templateParts n l rest →
      Reads .templateParts n (.leaf t :: l) rest
  | interpolation {n : Bool} {p : Phrase} {l : List Phrase} {rest : List Lookahead} :
      Reads (.group .interpolation) n [p] (words l ++ rest) → Reads .templateParts n l rest →
      Reads .templateParts n (p :: l) rest
  -- Elements and properties
  | spread {item : Item} {n : Bool} {t : Lookahead} {v : Phrase} {rest : List Lookahead} :
      item = .element ∨ item = .property → t.kind = .dotDotDot → Reads .assignment n [v] rest →
      Reads (.item item) n [.node .spreadElement [.leaf t, v]] rest
  | value {n : Bool} {v : Phrase} {rest : List Lookahead} :
      Reads .assignment n [v] rest → Reads (.item .element) n [v] rest
  | method {n : Bool} {a : List Phrase} {k ps b : Phrase} {rest : List Lookahead} :
      Modifier a → (a ≠ [] → (front (words [k, ps, b] ++ rest)).breakBefore = false) →
      Reads .key n [k] (words [ps, b] ++ rest) →
      Reads (.group .parameterList) n [ps] (words [b] ++ rest) → Reads (.group .block) n [b] rest →
      Reads (.item .property) n [.node .method (a ++ [k, ps, b])] rest
  | shorthand {n : Bool} {t : Lookahead} {rest : List Lookahead} :
      t.kind = .ident → (front rest).kind = .comma ∨ (front rest).kind = .rBrace →
      Reads (.item .property) n [.node .property [.node .nameRef [.leaf t]]] rest
  | keyValue {n : Bool} {k v : Phrase} {t : Lookahead} {rest : List Lookahead} :
      Reads .key n [k] (t :: (words [v] ++ rest)) → t.kind = .colon →
      Reads .assignment n [v] rest →
      Reads (.item .property) n [.node .property [k, .leaf t, v]] rest
  -- Operands
  | literal {n : Bool} {t : Lookahead} {rest : List Lookahead} :
      isLiteral t.kind = true → Reads (.category .primary) n [.node .literal [.leaf t]] rest
  | reference {n : Bool} {t : Lookahead} {rest : List Lookahead} :
      t.kind = .ident → (viewOf n (t :: rest)).startsAsyncFunction = false →
      Reads (.category .primary) n [.node .nameRef [.leaf t]] rest
  | this {n : Bool} {t : Lookahead} {rest : List Lookahead} :
      t.kind = .thisKw → Reads (.category .primary) n [.node .thisExpr [.leaf t]] rest
  | functionValue {n : Bool} {l : List Phrase} {rest : List Lookahead} :
      Reads (.function false) n l rest → Reads (.category .primary) n [.node .functionExpr l] rest
  | operandGroup {what : Enclosure} {n : Bool} {p : Phrase} {rest : List Lookahead} :
      what.isOperand = true → Reads (.group what) n [p] rest → Reads (.category .primary) n [p] rest
  | created {n : Bool} {p : Phrase} {rest : List Lookahead} :
      Reads (.category .newExpression) n [p] rest → Reads (.category .primary) n [p] rest
  | constructBare {n : Bool} {t : Lookahead} {p : Phrase} {rest : List Lookahead} :
      t.kind = .newKw → Reads (.chain false) n [p] rest →
      (viewOf n rest).nextIn [.dot, .lBracket, .lParen] = false →
      Reads (.category .newExpression) n [.node .newExpr [.leaf t, p]] rest
  | construct {n : Bool} {t : Lookahead} {p a : Phrase} {rest : List Lookahead} :
      t.kind = .newKw → Reads (.chain false) n [p] (words [a] ++ rest) →
      Reads (.group .argumentList) n [a] rest →
      Reads (.category .newExpression) n [.node .newExpr [.leaf t, p, a]] rest
  -- Operators
  | await {n : Bool} {t : Lookahead} {p : Phrase} {rest : List Lookahead} :
      t.kind = .awaitKw → Reads (.category .unary) n [p] rest →
      Reads (.category .unary) n [.node .awaitExpr [.leaf t, p]] rest
  | lead {n : Bool} {t : Lookahead} {p : Phrase} {rest : List Lookahead} :
      leadsOperand t.kind = true → Reads (.category .unary) n [p] rest →
      Reads (.category .unary) n [.node .prefixExpr [.leaf t, p]] rest
  | linked {n : Bool} {p : Phrase} {rest : List Lookahead} :
      Reads (.chain true) n [p] rest → (viewOf n rest).nextIn linkKinds = false →
      (viewOf n rest).nextIn [.plusPlus, .minusMinus] = false ∨ (front rest).breakBefore = true →
      Reads (.category .unary) n [p] rest
  | trail {n : Bool} {p : Phrase} {t : Lookahead} {rest : List Lookahead} :
      Reads (.chain true) n [p] (t :: rest) → t.kind = .plusPlus ∨ t.kind = .minusMinus →
      t.breakBefore = false → Reads (.category .unary) n [.node .postfixExpr [p, .leaf t]] rest
  | firstOperand {floor : Nat} {n : Bool} {p : Phrase} {rest : List Lookahead} :
      Reads (.category .unary) n [p] rest → Reads (.operands floor) n [p] rest
  | join {floor : Nat} {n : Bool} {p q : Phrase} {t : Lookahead} {power : Power}
      {rest : List Lookahead} :
      Reads (.operands floor) n [p] (t :: (words [q] ++ rest)) →
      (viewOf n [t]).power? = some power → floor ≤ power.left →
      Reads (.category (.binary power.right)) n [q] rest →
      Reads (.operands floor) n [.node .binaryExpr [p, .leaf t, q]] rest
  | joined {floor : Nat} {n : Bool} {p : Phrase} {rest : List Lookahead} :
      Reads (.operands floor) n [p] rest → (viewOf n rest).joins floor = false →
      Reads (.category (.binary floor)) n [p] rest
  | conditional {n : Bool} {p a b : Phrase} {q c : Lookahead} {rest : List Lookahead} :
      Reads (.category (.binary 0)) n [p] (q :: (words [a] ++ c :: (words [b] ++ rest))) →
      (viewOf n (words [p] ++ q :: (words [a] ++ c :: (words [b] ++ rest)))).startsArrow = false →
      q.kind = .question → Reads .assignment false [a] (c :: (words [b] ++ rest)) →
      c.kind = .colon →
      Reads .assignment n [b] rest →
      Reads .assignment n [.node .condExpr [p, .leaf q, a, .leaf c, b]] rest
  | assign {n : Bool} {p v : Phrase} {t : Lookahead} {rest : List Lookahead} :
      Reads (.category (.binary 0)) n [p] (t :: (words [v] ++ rest)) →
      (viewOf n (words [p] ++ t :: (words [v] ++ rest))).startsArrow = false →
      t.kind.isAssignment = true → Reads .assignment n [v] rest →
      Reads .assignment n [.node .assignExpr [p, .leaf t, v]] rest
  | unassigned {n : Bool} {p : Phrase} {rest : List Lookahead} :
      Reads (.category (.binary 0)) n [p] rest →
      (viewOf n (words [p] ++ rest)).startsArrow = false → (front rest).kind ≠ .question →
      (front rest).kind.isAssignment = false → Reads .assignment n [p] rest
  | single {n : Bool} {p : Phrase} {rest : List Lookahead} :
      Reads .assignment n [p] rest → (front rest).kind ≠ .comma → Reads .expression n [p] rest
  | sequence {n : Bool} {p : Phrase} {l : List Phrase} {rest : List Lookahead} :
      Reads .assignment n [p] (words l ++ rest) → l ≠ [] → Reads .commas n l rest →
      Reads .expression n [.node .sequenceExpr (p :: l)] rest
  | noComma {n : Bool} {rest : List Lookahead} :
      (front rest).kind ≠ .comma → Reads .commas n [] rest
  | comma {n : Bool} {t : Lookahead} {v : Phrase} {l : List Phrase} {rest : List Lookahead} :
      t.kind = .comma → Reads .assignment n [v] (words l ++ rest) → Reads .commas n l rest →
      Reads .commas n (.leaf t :: v :: l) rest
  -- Statements
  | noStatement {n : Bool} {rest : List Lookahead} : Reads .statements n [] rest
  | statement {n : Bool} {p : Phrase} {l : List Phrase} {rest : List Lookahead} :
      Reads .statement n [p] (words l ++ rest) → Reads .statements n l rest →
      Reads .statements n (p :: l) rest
  | semicolon {n : Bool} {t : Lookahead} {rest : List Lookahead} :
      t.kind = .semicolon → Reads .terminator n [.leaf t] rest
  | ended {n : Bool} {rest : List Lookahead} :
      (viewOf n rest).endsStatement = true → (front rest).kind ≠ .semicolon →
      Reads .terminator n [] rest
  | declaration {n : Bool} {t : Lookahead} {p : Phrase} {i l : List Phrase}
      {rest : List Lookahead} :
      isDeclarer t.kind = true → Reads .pattern n [p] (words (i ++ l) ++ rest) →
      Reads .initializer n i (words l ++ rest) → Reads .declarators n l rest →
      Reads .declaration n (.leaf t :: .node .declarator (p :: i) :: l) rest
  | noDeclarator {n : Bool} {rest : List Lookahead} :
      (front rest).kind ≠ .comma → Reads .declarators n [] rest
  | declarator {n : Bool} {t : Lookahead} {p : Phrase} {i l : List Phrase}
      {rest : List Lookahead} :
      t.kind = .comma → Reads .pattern n [p] (words (i ++ l) ++ rest) →
      Reads .initializer n i (words l ++ rest) → Reads .declarators n l rest →
      Reads .declarators n (.leaf t :: .node .declarator (p :: i) :: l) rest
  | block {n : Bool} {b : Phrase} {rest : List Lookahead} :
      Reads (.group .block) n [b] rest → Reads .statement n [b] rest
  | variableStatement {n : Bool} {d e : List Phrase} {rest : List Lookahead} :
      Reads .declaration n d (words e ++ rest) → Reads .terminator n e rest →
      Reads .statement n [.node .varDecl (d ++ e)] rest
  | functionStatement {n : Bool} {l : List Phrase} {rest : List Lookahead} :
      Reads (.function true) n l rest → Reads .statement n [.node .functionDecl l] rest
  | choice {n : Bool} {t : Lookahead} {c e : List Phrase} {p : Phrase} {rest : List Lookahead} :
      t.kind = .ifKw → Reads (.enclosed .condition) n c (words (p :: e) ++ rest) →
      Reads .statement n [p] (words e ++ rest) → Reads .otherwise n e rest →
      Reads .statement n [.node .ifStmt (.leaf t :: (c ++ p :: e))] rest
  | noElse {n : Bool} {rest : List Lookahead} :
      (front rest).kind ≠ .elseKw → Reads .otherwise n [] rest
  | otherwise {n : Bool} {t : Lookahead} {p : Phrase} {rest : List Lookahead} :
      t.kind = .elseKw → Reads .statement n [p] rest →
      Reads .otherwise n [.node .elseClause [.leaf t, p]] rest
  | whileLoop {n : Bool} {t : Lookahead} {c : List Phrase} {p : Phrase} {rest : List Lookahead} :
      t.kind = .whileKw → Reads (.enclosed .condition) n c (words [p] ++ rest) →
      Reads .statement n [p] rest →
      Reads .statement n [.node .whileStmt (.leaf t :: (c ++ [p]))] rest
  | doWhile {n : Bool} {t w : Lookahead} {p : Phrase} {c e : List Phrase} {rest : List Lookahead} :
      t.kind = .doKw → Reads .statement n [p] (w :: (words (c ++ e) ++ rest)) →
      w.kind = .whileKw → Reads (.enclosed .condition) n c (words e ++ rest) →
      Optional .semicolon e → (e = [] → (front rest).kind ≠ .semicolon) →
      Reads .statement n [.node .doWhileStmt (.leaf t :: p :: .leaf w :: (c ++ e))] rest
  | loop {kind : NodeKind} {n : Bool} {t o c : Lookahead} {h : List Phrase} {p : Phrase}
      {rest : List Lookahead} :
      t.kind = .forKw → o.kind = .lParen → Reads (.head kind) n h (c :: (words [p] ++ rest)) →
      c.kind = .rParen → Reads .statement n [p] rest →
      Reads .statement n [.node kind (.leaf t :: .leaf o :: (h ++ [.leaf c, p]))] rest
  | headDeclaration {n : Bool} {d : List Phrase} {rest : List Lookahead} :
      Reads .declaration n d rest → Reads .headFirst n [.node .varDecl d] rest
  | headExpression {n : Bool} {p : Phrase} {rest : List Lookahead} :
      Reads .expression n [p] rest → Reads .headFirst n [p] rest
  | noClause {n : Bool} {rest : List Lookahead} : Reads .clause n [] rest
  | clause {n : Bool} {p : Phrase} {rest : List Lookahead} :
      Reads .expression n [p] rest → Reads .clause n [p] rest
  | clauses {n : Bool} {s t : Lookahead} {x y : List Phrase} {rest : List Lookahead} :
      s.kind = .semicolon → Reads .clause n x (t :: (words y ++ rest)) →
      t.kind = .semicolon → Reads .clause n y rest →
      Reads .clauses n [.leaf s, .node .forTest x, .leaf t, .node .forUpdate y] rest
  | headOpen {n : Bool} {l : List Phrase} {rest : List Lookahead} :
      Reads .clauses n l rest → Reads (.head .forStmt) n (.node .forInit [] :: l) rest
  | headSet {n : Bool} {p : Phrase} {l : List Phrase} {rest : List Lookahead} :
      Reads .headFirst true [p] (words l ++ rest) → Reads .clauses n l rest →
      Reads (.head .forStmt) n (.node .forInit [p] :: l) rest
  | headOf {n : Bool} {t : Lookahead} {p v : Phrase} {rest : List Lookahead} :
      Reads .headFirst true [p] (t :: (words [v] ++ rest)) → t.kind = .ident →
      t.text = "of".toList → Reads .assignment n [v] rest →
      Reads (.head .forInStmt) n [p, .leaf t, v] rest
  | headIn {n : Bool} {t : Lookahead} {p v : Phrase} {rest : List Lookahead} :
      Reads .headFirst true [p] (t :: (words [v] ++ rest)) → t.kind = .inKw →
      Reads .expression n [v] rest → Reads (.head .forInStmt) n [p, .leaf t, v] rest
  | result {n : Bool} {t : Lookahead} {v : Phrase} {e : List Phrase} {rest : List Lookahead} :
      t.kind = .returnKw → Reads .expression n [v] (words e ++ rest) →
      (front (words (v :: e) ++ rest)).breakBefore = false → Reads .terminator n e rest →
      Reads .statement n [.node .returnStmt (.leaf t :: v :: e)] rest
  | noResult {n : Bool} {t : Lookahead} {e : List Phrase} {rest : List Lookahead} :
      t.kind = .returnKw → Reads .terminator n e rest →
      Reads .statement n [.node .returnStmt (.leaf t :: e)] rest
  | jump {kind : NodeKind} {n : Bool} {t : Lookahead} {e : List Phrase} {rest : List Lookahead} :
      jumpKind? t.kind = some kind → Reads .terminator n e rest →
      Reads .statement n [.node kind (.leaf t :: e)] rest
  | throw {n : Bool} {t : Lookahead} {v : Phrase} {e : List Phrase} {rest : List Lookahead} :
      t.kind = .throwKw → Reads .expression n [v] (words e ++ rest) →
      (front (words (v :: e) ++ rest)).breakBefore = false → Reads .terminator n e rest →
      Reads .statement n [.node .throwStmt (.leaf t :: v :: e)] rest
  | catching {n : Bool} {t : Lookahead} {b : Phrase} {rest : List Lookahead} :
      t.kind = .catchKw → Reads (.group .block) n [b] rest →
      Reads .catching n [.node .catchClause [.leaf t, b]] rest
  | catchingAs {n : Bool} {t : Lookahead} {l : List Phrase} {b : Phrase} {rest : List Lookahead} :
      t.kind = .catchKw → Reads (.enclosed .catchBinding) n l (words [b] ++ rest) →
      Reads (.group .block) n [b] rest →
      Reads .catching n [.node .catchClause (.leaf t :: (l ++ [b]))] rest
  | ending {n : Bool} {t : Lookahead} {b : Phrase} {rest : List Lookahead} :
      t.kind = .finallyKw → Reads (.group .block) n [b] rest →
      Reads .ending n [.node .finallyClause [.leaf t, b]] rest
  | caught {n : Bool} {c : Phrase} {rest : List Lookahead} :
      Reads .catching n [c] rest → (front rest).kind ≠ .finallyKw → Reads .handlers n [c] rest
  | caughtEnding {n : Bool} {c f : Phrase} {rest : List Lookahead} :
      Reads .catching n [c] (words [f] ++ rest) → Reads .ending n [f] rest →
      Reads .handlers n [c, f] rest
  | onlyEnding {n : Bool} {f : Phrase} {rest : List Lookahead} :
      Reads .ending n [f] rest → Reads .handlers n [f] rest
  | attempt {n : Bool} {t : Lookahead} {b : Phrase} {h : List Phrase} {rest : List Lookahead} :
      t.kind = .tryKw → Reads (.group .block) n [b] (words h ++ rest) → Reads .handlers n h rest →
      Reads .statement n [.node .tryStmt (.leaf t :: b :: h)] rest
  | noCase {n : Bool} {rest : List Lookahead} : Reads .switchCases n [] rest
  | case {n : Bool} {t c : Lookahead} {v : Phrase} {l m : List Phrase} {rest : List Lookahead} :
      t.kind = .caseKw → Reads .expression n [v] (c :: (words (l ++ m) ++ rest)) →
      c.kind = .colon → Reads .statements n l (words m ++ rest) →
      Reads .switchCases n m rest →
      Reads .switchCases n (.node .switchCase (.leaf t :: v :: .leaf c :: l) :: m) rest
  | defaultCase {n : Bool} {t c : Lookahead} {l m : List Phrase} {rest : List Lookahead} :
      t.kind = .defaultKw → c.kind = .colon →
      Reads .statements n l (words m ++ rest) → Reads .switchCases n m rest →
      Reads .switchCases n (.node .switchCase (.leaf t :: .leaf c :: l) :: m) rest
  | switch {n : Bool} {t : Lookahead} {c k : List Phrase} {rest : List Lookahead} :
      t.kind = .switchKw → Reads (.enclosed .condition) n c (words k ++ rest) →
      Reads (.enclosed .switchBody) n k rest →
      Reads .statement n [.node .switchStmt (.leaf t :: (c ++ k))] rest
  | empty {n : Bool} {t : Lookahead} {rest : List Lookahead} :
      t.kind = .semicolon → Reads .statement n [.node .emptyStmt [.leaf t]] rest
  | effect {n : Bool} {v : Phrase} {e : List Phrase} {rest : List Lookahead} :
      Reads .expression n [v] (words e ++ rest) → Reads .terminator n e rest →
      (viewOf n (words (v :: e) ++ rest)).startsValue = true →
      Reads .statement n [.node .exprStmt (v :: e)] rest

end ShellAwait.Grammar
